/-
# Bulks

`BulkState` is told of the packets with data of one direction, one by one, each with
the time at which the other side was last heard.  These packets come in bulks
(`joinsBulk`): no second of silence between two packets, and nothing heard from the
other side behind the first one.  The state is that of the bulks, of which the ones of
at least four packets count (`bulkOf`, `add_bulkOf`).
-/

import Maja.Cicflowmeter.Flow
import Maja.Lib.Runs

namespace Maja
namespace Cicflowmeter

open Lib

/-- A packet of one direction, and when the other one was last heard. -/
abbrev Heard : Type := Sample × Option I64

namespace BulkState

/-- The packet belongs to the bulk. -/
def joinsBulk (bulk : List Heard) (x : Heard) : Bool :=
  (bulk.head?.all fun first => !x.2.any (first.1.timestamp < ·)) &&
    bulk.getLast?.all fun last =>
      !(I64.ofInt 1000000000 < x.1.timestamp.saturatingSub last.1.timestamp)

/-- The bytes of packets. -/
def bytesOf (xs : List Heard) : ℕ := (xs.map fun x => x.1.size.toNat).sum

/-- The time from the first to the last packet of a bulk. -/
def spanOf (bulk : List Heard) : ℤ :=
  ((bulk.getLast?.map fun x => x.1.timestamp.val).getD 0) -
    ((bulk.head?.map fun x => x.1.timestamp.val).getD 0)

/-- The bulks that count. -/
def counted (bulks : List (List Heard)) : List (List Heard) := bulks.filter (4 ≤ ·.length)

/-- The state after these bulks, the last of which may go on. -/
def bulkOf (bulks : List (List Heard)) : BulkState :=
  let current := bulks.getLast?.getD []
  { start := current.head?.map (·.1.timestamp)
    last := current.getLast?.map (·.1.timestamp)
    packetCount := current.length
    size := .ofNat (bytesOf current)
    states := (counted bulks).length
    totalPackets := ((counted bulks).map List.length).sum
    totalBytes := .ofNat ((counted bulks).map bytesOf).sum
    duration := .wrap ((counted bulks).map spanOf).sum }

variable {ε : Type} {checks : Bool} {bulks : List (List Heard)} {bulk bulk' : BulkState} {x : Heard}
  {run : List Heard}

/-- One more packet adds its bytes to those of a run. -/
theorem bytesOf_concat : bytesOf (run ++ [x]) = bytesOf run + x.1.size.toNat := by
  simp [bytesOf]

/-- The bytes of packets whose lengths are below `2 ^ 53` are their payloads. -/
theorem bytesOf_eq (h : ∀ x ∈ run, x.1.payloadBytes.toNat < 2 ^ 53) :
    bytesOf run = (run.map fun x => x.1.payloadBytes.toNat).sum := by
  rw [bytesOf]
  refine congrArg List.sum (List.map_congr_left fun x hx => ?_)
  rw [Sample.size_of_lt (h x hx)]

/-- A packet behind a bulk that is not empty makes it longer. -/
theorem spanOf_concat {last : Heard} (h : run.getLast? = some last) :
    spanOf (run ++ [x]) = spanOf run + (x.1.timestamp.val - last.1.timestamp.val) := by
  have hne : run ≠ [] := by
    rintro rfl
    cases h
  rw [spanOf, spanOf, List.getLast?_concat, List.head?_append_of_ne_nil _ hne, h]
  simp only [Option.map_some, Option.getD_some]
  ring

/-- The state begins a bulk for the packets that do not join the last one. -/
theorem begins_bulkOf (hne : ∀ bulk ∈ bulks, bulk ≠ []) :
    (bulkOf bulks).begins x.1 x.2 =
      !(bulks.getLast?.any fun bulk => joinsBulk bulk x) := by
  cases hlast : bulks.getLast? with
  | none => simp [begins, startAfter, bulkOf, hlast]
  | some run =>
    have hrun := hne run (List.mem_of_getLast? hlast)
    have hfirst := List.head?_eq_some_head hrun
    have hrunLast := List.getLast?_eq_some_getLast hrun
    obtain ⟨sample, other⟩ := x
    cases other with
    | none => simp [begins, startAfter, bulkOf, hlast, joinsBulk, hfirst, hrunLast]
    | some other =>
      by_cases hother : (run.head hrun).1.timestamp < other <;>
        simp [begins, startAfter, bulkOf, hlast, joinsBulk, hfirst, hrunLast, hother]

/-- The packet begins a bulk. -/
theorem add_begins (hpayload : x.1.payloadBytes ≠ 0) (hbegins : bulk.begins x.1 x.2 = true) :
    (bulk.add checks x.1 x.2 : Outcome ε BulkState) = .ok { bulk with
      start := some x.1.timestamp
      last := some x.1.timestamp
      packetCount := 1
      size := x.1.size } := by
  rw [add, if_neg (mt Sample.payloadF64_eq_zero_iff.1 hpayload), if_pos hbegins]
  rfl

/-- The last bulk does not count yet. -/
theorem bulkOf_concat_short (h : run.length < 4) : bulkOf (bulks ++ [run]) =
    { start := run.head?.map (·.1.timestamp)
      last := run.getLast?.map (·.1.timestamp)
      packetCount := run.length
      size := .ofNat (bytesOf run)
      states := (counted bulks).length
      totalPackets := ((counted bulks).map List.length).sum
      totalBytes := .ofNat ((counted bulks).map bytesOf).sum
      duration := .wrap ((counted bulks).map spanOf).sum } := by
  have hcounted : counted (bulks ++ [run]) = counted bulks := by
    rw [counted, List.filter_append, List.filter_singleton, decide_eq_false h.not_ge]
    exact List.append_nil _
  rw [bulkOf, hcounted, List.getLast?_concat]
  rfl

/-- The last bulk counts. -/
theorem bulkOf_concat_long (h : 4 ≤ run.length) : bulkOf (bulks ++ [run]) =
    { start := run.head?.map (·.1.timestamp)
      last := run.getLast?.map (·.1.timestamp)
      packetCount := run.length
      size := .ofNat (bytesOf run)
      states := (counted bulks).length + 1
      totalPackets := ((counted bulks).map List.length).sum + run.length
      totalBytes := .ofNat (((counted bulks).map bytesOf).sum + bytesOf run)
      duration := .wrap (((counted bulks).map spanOf).sum + spanOf run) } := by
  have hcounted : counted (bulks ++ [run]) = counted bulks ++ [run] := by
    rw [counted, List.filter_append, List.filter_singleton, decide_eq_true h]
    rfl
  rw [bulkOf, hcounted, List.getLast?_concat]
  simp

/-- A bulk in which the other side was not heard keeps its start. -/
theorem startAfter_eq {start : I64} {otherLast : Option I64} (h : bulk.start = some start)
    (hother : ∀ other ∈ otherLast, ¬start < other) : bulk.startAfter otherLast = some start := by
  cases otherLast with
  | none => exact h
  | some other =>
    rw [← h]
    simp only [startAfter, h]
    exact if_neg (hother other rfl)

/-- A packet that joins the last bulk leaves its start. -/
theorem startAfter_joins {front : List (List Heard)} (hrun : run ≠ [])
    (hjoins : joinsBulk run x = true) :
    (bulkOf (front ++ [run])).startAfter x.2 = some (run.head hrun).1.timestamp := by
  have hfirst := List.head?_eq_some_head hrun
  have hbulk : (bulkOf (front ++ [run])).start = some (run.head hrun).1.timestamp := by
    rw [bulkOf, List.getLast?_concat, Option.getD_some, hfirst, Option.map_some]
  refine startAfter_eq hbulk ?_
  rw [joinsBulk, Bool.and_eq_true, hfirst, Option.all_some] at hjoins
  intro other hother
  rw [Option.mem_def.1 hother] at hjoins
  simpa using hjoins.1

/-- The span of a run goes from its first packet to its last. -/
theorem spanOf_eq (hrun : run ≠ []) :
    spanOf run = (run.getLast hrun).1.timestamp.val - (run.head hrun).1.timestamp.val := by
  rw [spanOf, List.head?_eq_some_head hrun, List.getLast?_eq_some_getLast hrun]
  rfl

/-- A packet that joins the last bulk. -/
theorem add_joins {front : List (List Heard)} (hrun : run ≠ []) (hpayload : x.1.payloadBytes ≠ 0)
    (hjoins : joinsBulk run x = true) (hbegins : (bulkOf (front ++ [run])).begins x.1 x.2 = false)
    (h : ((bulkOf (front ++ [run])).add checks x.1 x.2 : Outcome ε BulkState) = .ok bulk') :
    bulk' = bulkOf (front ++ [run ++ [x]]) := by
  have hlast := List.getLast?_eq_some_getLast hrun
  have hspan := spanOf_concat (x := x) hlast
  have hhead : (run ++ [x]).head? = some (run.head hrun) := by
    rw [List.head?_append_of_ne_nil _ hrun, List.head?_eq_some_head hrun]
  have hlength : (run ++ [x]).length = run.length + 1 := List.length_append
  rw [add, if_neg (mt Sample.payloadF64_eq_zero_iff.1 hpayload),
    if_neg (Bool.eq_false_iff.1 hbegins), startAfter_joins hrun hjoins] at h
  obtain ⟨size, hsize, h⟩ := Outcome.bind_eq_ok.1 h
  obtain rfl := U64.eq_ofNat_of_arith hsize
  dsimp only at h
  obtain hlen | hlen | hlen := Nat.lt_trichotomy (run.length + 1) 4
  · rw [bulkOf_concat_short (by omega)] at h
    rw [bulkOf_concat_short (by omega), hhead, List.getLast?_concat, hlength, bytesOf_concat]
    dsimp only at h
    rw [if_neg (by omega), if_neg (by omega), U64.ofNat_toNat_add] at h
    cases h
    rfl
  · -- the bulk counts from its fourth packet on, which adds all of it
    rw [bulkOf_concat_short (by omega)] at h
    rw [bulkOf_concat_long (by omega), hhead, List.getLast?_concat, hlength, hspan, bytesOf_concat]
    dsimp only at h
    rw [if_pos hlen, U64.ofNat_toNat_add] at h
    obtain ⟨totalBytes, hbytes, h⟩ := Outcome.bind_eq_ok.1 h
    obtain ⟨length, hlength', h⟩ := Outcome.bind_eq_ok.1 h
    obtain ⟨duration, hduration, h⟩ := Outcome.bind_eq_ok.1 h
    obtain rfl := U64.eq_ofNat_of_arith hbytes
    obtain rfl := I64.eq_wrap_of_arith hlength'
    obtain rfl := I64.eq_wrap_of_arith hduration
    cases h
    have hwhole : spanOf run + (x.1.timestamp.val - (run.getLast hrun).1.timestamp.val) =
        x.1.timestamp.val - (run.head hrun).1.timestamp.val := by
      rw [spanOf_eq hrun]
      ring
    rw [hwhole, U64.ofNat_toNat_add, I64.wrap_wrap_add_wrap, U64.ofNat_add_toNat]
    rfl
  · -- and behind it packet by packet
    rw [bulkOf_concat_long (by omega)] at h
    rw [bulkOf_concat_long (by omega), hhead, List.getLast?_concat, hlength, hspan, bytesOf_concat]
    dsimp only at h
    rw [if_neg (by omega), if_pos hlen, U64.ofNat_toNat_add, hlast] at h
    obtain ⟨totalBytes, hbytes, h⟩ := Outcome.bind_eq_ok.1 h
    obtain ⟨gap, hgap, h⟩ := Outcome.bind_eq_ok.1 h
    obtain ⟨duration, hduration, h⟩ := Outcome.bind_eq_ok.1 h
    obtain rfl := U64.eq_ofNat_of_arith hbytes
    obtain rfl := I64.eq_wrap_of_arith hgap
    obtain rfl := I64.eq_wrap_of_arith hduration
    cases h
    rw [U64.ofNat_toNat_add, I64.wrap_wrap_add_wrap, Option.map_some, Option.getD_some,
      add_assoc, add_assoc, add_assoc]
    rfl

/-- **The state is that of the bulks**, and so it is after one more packet. -/
theorem add_bulkOf (hne : ∀ bulk ∈ bulks, bulk ≠ [])
    (h : ((bulkOf bulks).add checks x.1 x.2 : Outcome ε BulkState) = .ok bulk') :
    bulk' = bulkOf (if x.1.payloadBytes = 0 then bulks else pushRun joinsBulk bulks x) := by
  by_cases hpayload : x.1.payloadBytes = 0
  · rw [add_of_no_payload hpayload] at h
    cases h
    rw [if_pos hpayload]
  rw [if_neg hpayload]
  cases hjoins : bulks.getLast?.any fun bulk => joinsBulk bulk x with
  | false =>
    have hbegins : (bulkOf bulks).begins x.1 x.2 = true := by rw [begins_bulkOf hne, hjoins]; rfl
    rw [add_begins hpayload hbegins] at h
    cases h
    rw [pushRun_of_not_continues (by
      intro run hrun
      rw [Option.mem_def.1 hrun] at hjoins
      exact hjoins), bulkOf_concat_short (by simp)]
    simp [bulkOf, bytesOf]
  | true =>
    have hbegins : (bulkOf bulks).begins x.1 x.2 = false := by rw [begins_bulkOf hne, hjoins]; rfl
    obtain ⟨run, hlast, hrun⟩ := (Option.any_eq_true ..).1 hjoins
    obtain ⟨front, rfl⟩ := List.getLast?_eq_some_iff.1 hlast
    rw [pushRun_of_continues hrun]
    exact add_joins (hne run (by simp)) hpayload hrun hbegins h

end BulkState

end Cicflowmeter
end Maja
