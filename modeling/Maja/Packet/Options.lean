/-
# Option iterators

`Ipv4Options`, `TcpOptions`, `Ipv6Options` and `SctpChunks` of `src/packet/layer`.  An
iterator goes over a slice of bytes and hands out an item for each option or chunk; an
item that does not fit into the slice is malformed, has all bytes that are left and ends
the iteration.  No iterator skips or invents a byte (`options_tile`).
-/

import Maja.Lib.BitRange
import Maja.Lib.Tiling
import Maja.Packet.OptionKind

namespace Maja
namespace Packet

open Lib

/-- An iterator over the bytes of options. -/
structure OptionBytes where
  bytes : List UInt8
  offset : ℕ := 0
  done : Bool := false
  deriving DecidableEq, Repr

/-- `new` of an iterator. -/
def OptionBytes.new (bytes : List UInt8) : OptionBytes := { bytes }

/-- The bytes that an iterator has not read; there are none when it is done. -/
def OptionBytes.ahead (s : OptionBytes) : List UInt8 :=
  if s.done then [] else s.bytes.drop s.offset

variable {ε : Type}

/-- The return of a malformed item, which has all bytes from the offset on. -/
def returnMalformed {ι : Type} (item : List UInt8 → ι) : Prog OptionBytes ε (Option ι) :=
  fun s => do
  let bytes ← Outcome.slice s.bytes s.offset s.bytes.length
  pure (some (item bytes), { s with done := true })

/-! ### IPv4 and TCP -/

/-- `Ipv4Option` and `TcpOption`, of a type of kinds. -/
inductive TypedOption (κ : Type) where
  | endOfOptions
  | noOperation
  | option (kind : κ) (len : UInt8) (data : List UInt8)
  | malformed (kind : UInt8) (bytes : List UInt8)
  deriving DecidableEq, Repr

/-- `next` of `Ipv4Options` and `TcpOptions`: the length byte counts the whole option. -/
def nextTyped {κ : Type} (ofCode : ℕ → κ) : Prog OptionBytes ε (Option (TypedOption κ)) := fun s =>
  if s.done ∨ s.bytes.length ≤ s.offset then pure (none, s)
  else do
    let start := s.offset
    let kind ← Outcome.index s.bytes start
    if kind = 0 then pure (some .endOfOptions, { s with offset := start + 1, done := true })
    else if kind = 1 then pure (some .noOperation, { s with offset := start + 1 })
    else
      match s.bytes[start + 1]? with
      | none => returnMalformed (.malformed kind) s
      | some byte => do
        let len := byte.toNat
        if len < 2 ∨ s.bytes.length < start + len then returnMalformed (.malformed kind) s
        else do
          let data ← Outcome.slice s.bytes (start + 2) (start + len)
          pure (some (.option (ofCode kind.toNat) (.ofNat len) data),
            { s with offset := start + len })

/-- `Ipv4Option`. -/
abbrev Ipv4Option : Type := TypedOption Ipv4OptionKind

/-- `Ipv4Options::next`. -/
def Ipv4Options.next : Prog OptionBytes ε (Option Ipv4Option) := nextTyped Ipv4OptionKind.ofCode

/-- `TcpOption`. -/
abbrev TcpOption : Type := TypedOption TcpOptionKind

/-- `TcpOptions::next`. -/
def TcpOptions.next : Prog OptionBytes ε (Option TcpOption) := nextTyped TcpOptionKind.ofCode

/-- The bytes of an option, with those of its kind. -/
def TypedOption.encoding {κ : Type} (code : κ → ℕ) : Encoding (TypedOption κ) UInt8 where
  encode
    | endOfOptions => [0]
    | noOperation => [1]
    | option kind len data => [.ofNat (code kind), len] ++ data
    | malformed _ bytes => bytes
  ends
    | endOfOptions => true
    | _ => false
  malformed
    | malformed _ _ => true
    | _ => false

/-! ### IPv6 -/

/-- `Ipv6Option`. -/
inductive Ipv6Option where
  | pad1
  | option (kind : Ipv6OptionKind) (data : List UInt8)
  | malformed (kind : UInt8) (bytes : List UInt8)
  deriving DecidableEq, Repr

/-- `Ipv6Options`. -/
structure Ipv6Options where
  bytes : List UInt8
  offset : ℕ := 0
  deriving DecidableEq, Repr

namespace Ipv6Options

/-- `Ipv6Options::new`. -/
def new (bytes : List UInt8) : Ipv6Options := { bytes }

/-- The return of a malformed option, behind which the iterator stops. -/
def returnMalformed (kind : UInt8) : Prog Ipv6Options ε (Option Ipv6Option) := fun s => do
  let bytes ← Outcome.slice s.bytes s.offset s.bytes.length
  pure (some (.malformed kind bytes), { s with offset := s.bytes.length })

/-- `Ipv6Options::next`: the length byte counts the data. -/
def next : Prog Ipv6Options ε (Option Ipv6Option) := fun s =>
  if s.bytes.length ≤ s.offset then pure (none, s)
  else do
    let start := s.offset
    let kind ← Outcome.index s.bytes start
    if kind = 0 then pure (some .pad1, { s with offset := start + 1 })
    else
      match s.bytes[start + 1]? with
      | none => returnMalformed kind s
      | some len => do
        let stop := start + 2 + len.toNat
        if s.bytes.length < stop then returnMalformed kind s
        else do
          let data ← Outcome.slice s.bytes (start + 2) stop
          pure (some (.option (.ofCode kind.toNat) data), { s with offset := stop })

end Ipv6Options

/-- The bytes of an IPv6 option. -/
def Ipv6Option.encoding : Encoding Ipv6Option UInt8 where
  encode
    | pad1 => [0]
    | option kind data => [.ofNat kind.code, .ofNat data.length] ++ data
    | malformed _ bytes => bytes
  ends _ := false
  malformed
    | malformed _ _ => true
    | _ => false

/-! ### SCTP -/

/-- `SctpChunk`. -/
inductive SctpChunk where
  | chunk (chunkType : SctpChunkType) (flags : UInt8) (len : UInt16) (value padding : List UInt8)
  | malformed (bytes : List UInt8)
  deriving DecidableEq, Repr

/-- `SctpChunks::next`: the length counts the header, and the padding is cut short by
the end of the slice. -/
def SctpChunks.next : Prog OptionBytes ε (Option SctpChunk) := fun s =>
  if s.done ∨ s.bytes.length ≤ s.offset then pure (none, s)
  else if s.bytes.length < s.offset + 4 then returnMalformed .malformed s
  else do
    let start := s.offset
    let header ← Outcome.slice s.bytes start (start + 4)
    let chunkType ← Outcome.index header 0
    let flags ← Outcome.index header 1
    let len := beNat (header.drop 2)
    if len < 4 ∨ s.bytes.length < start + len then returnMalformed .malformed s
    else do
      -- `(len + 3) & !3`
      let paddedLen := (len + 3) / 4 * 4
      let stop := start + len
      let paddedEnd := min (start + paddedLen) s.bytes.length
      let value ← Outcome.slice s.bytes (start + 4) stop
      let padding ← Outcome.slice s.bytes stop paddedEnd
      pure (some (.chunk (.ofCode chunkType.toNat) flags (.ofNat len) value padding),
        { s with offset := paddedEnd })

/-- The bytes of a chunk. -/
def SctpChunk.encoding : Encoding SctpChunk UInt8 where
  encode
    | chunk chunkType flags len value padding =>
      [.ofNat chunkType.code, flags] ++ beBytes 2 len.toNat ++ value ++ padding
    | malformed bytes => bytes
  ends _ := false
  malformed
    | malformed _ => true
    | _ => false

/-! ### Tiling -/

/-- While the iterator is not done, what lies ahead is behind its offset. -/
theorem OptionBytes.ahead_of_not_done {s : OptionBytes} (h : s.done = false) :
    s.ahead = s.bytes.drop s.offset := if_neg (by simp [h])

/-- Bytes are ahead as long as the iterator goes on. -/
theorem OptionBytes.ahead_eq_nil {s : OptionBytes} :
    s.ahead = [] ↔ s.done = true ∨ s.bytes.length ≤ s.offset := by
  unfold ahead
  split_ifs with h <;> simp [h]

/-- What is from one place on is what is up to another one, and what is behind it. -/
theorem drop_eq_append (bytes : List UInt8) {lo hi : ℕ} (h : lo ≤ hi) :
    bytes.drop lo = (bytes.drop lo).take (hi - lo) ++ bytes.drop hi := by
  have hdrop : bytes.drop hi = (bytes.drop lo).drop (hi - lo) := by
    rw [List.drop_drop, Nat.add_sub_cancel' h]
  rw [hdrop, List.take_append_drop]

/-- A malformed option takes the rest and ends the iterator. -/
theorem returnMalformed_eq {ι : Type} {item : List UInt8 → ι} {s : OptionBytes}
    (hdone : s.done = false) (h : s.offset ≤ s.bytes.length) :
    (returnMalformed item : Prog OptionBytes ε _) s =
      .ok (some (item s.ahead), { s with done := true }) := by
  rw [returnMalformed, Outcome.slice_eq_ok h le_rfl, List.take_of_length_le (by simp),
    OptionBytes.ahead_of_not_done hdone]
  rfl

/-- **The options of IPv4 and TCP tile their bytes**, when a byte survives its typed
form. -/
theorem nextTyped_tiles {κ : Type} {ofCode : ℕ → κ} {code : κ → ℕ}
    (hcode : ∀ value, code (ofCode value) = value) :
    Tiles (TypedOption.encoding code) OptionBytes.ahead
      (nextTyped ofCode : Prog OptionBytes ε (Option (TypedOption κ))) where
  finished s h := if_pos (OptionBytes.ahead_eq_nil.1 h)
  taken s h := by
    have hgo := mt OptionBytes.ahead_eq_nil.2 h
    rw [nextTyped, if_neg hgo]
    rw [not_or, Bool.not_eq_true, Nat.not_le] at hgo
    obtain ⟨hdone, hlt⟩ := hgo
    have hahead := OptionBytes.ahead_of_not_done hdone
    have hnext : ∀ offset, OptionBytes.ahead { s with offset } = s.bytes.drop offset :=
      fun _ => OptionBytes.ahead_of_not_done hdone
    have hmalformed : ∀ kind, Takes (TypedOption.encoding code) s.ahead (.malformed kind s.ahead)
        (OptionBytes.ahead { s with done := true }) := fun _ => .all h rfl
    have hkind := List.drop_eq_getElem_cons hlt
    simp only [Outcome.index_eq_ok hlt, Outcome.ok_bind]
    generalize s.bytes[s.offset] = kind at hkind ⊢
    split_ifs with hzero hone
    · -- the end of the options leaves what is behind it
      refine ⟨_, _, rfl, by simp [TypedOption.encoding], .inr ⟨rfl, ?_, rfl⟩, fun _ => rfl⟩
      rw [hahead, hkind, hzero]
      exact List.prefix_append [0] _
    · refine ⟨_, _, rfl, by simp [TypedOption.encoding], .inl ?_, fun hm => by cases hm⟩
      rw [hahead, hnext, hkind, hone]
      rfl
    · cases hbyte : s.bytes[s.offset + 1]? with
      | none =>
          dsimp only
          rw [returnMalformed_eq hdone hlt.le]
          exact ⟨_, _, rfl, hmalformed kind⟩
      | some byte =>
          dsimp only
          split_ifs with hlen
          · rw [returnMalformed_eq hdone hlt.le]
            exact ⟨_, _, rfl, hmalformed kind⟩
          · rw [not_or, Nat.not_lt, Nat.not_lt] at hlen
            obtain ⟨hmin, hend⟩ := hlen
            obtain ⟨hlt', hbyte⟩ := List.getElem?_eq_some_iff.1 hbyte
            rw [Outcome.slice_eq_ok (by omega) hend, Outcome.ok_bind]
            refine ⟨_, _, rfl, by simp [TypedOption.encoding], .inl ?_, fun hm => by cases hm⟩
            have hdata := drop_eq_append s.bytes
              (show s.offset + 2 ≤ s.offset + byte.toNat by omega)
            rw [hahead, hnext, hkind, List.drop_eq_getElem_cons hlt', hbyte]
            simpa [TypedOption.encoding, hcode] using hdata

/-- A malformed IPv6 option takes the rest and ends the iterator. -/
theorem Ipv6Options.returnMalformed_eq {kind : UInt8} {s : Ipv6Options}
    (h : s.offset ≤ s.bytes.length) : (returnMalformed kind : Prog Ipv6Options ε _) s =
      .ok (some (.malformed kind (s.bytes.drop s.offset)),
        { s with offset := s.bytes.length }) := by
  rw [returnMalformed, Outcome.slice_eq_ok h le_rfl, List.take_of_length_le (by simp)]
  rfl

/-- **The options of IPv6 tile their bytes.** -/
theorem Ipv6Options.next_tiles : Tiles Ipv6Option.encoding (fun s => s.bytes.drop s.offset)
    (next : Prog Ipv6Options ε (Option Ipv6Option)) where
  finished s h := if_pos (List.drop_eq_nil_iff.1 h)
  taken s h := by
    have hlt : s.offset < s.bytes.length := Nat.not_le.1 (mt List.drop_eq_nil_of_le h)
    rw [next, if_neg (Nat.not_le.2 hlt)]
    have hmalformed : ∀ kind, Takes Ipv6Option.encoding (s.bytes.drop s.offset)
        (.malformed kind (s.bytes.drop s.offset)) (s.bytes.drop s.bytes.length) := fun _ => by
      rw [List.drop_length]
      exact .all h rfl
    have hkind := List.drop_eq_getElem_cons hlt
    simp only [Outcome.index_eq_ok hlt, Outcome.ok_bind]
    generalize s.bytes[s.offset] = kind at hkind ⊢
    split_ifs with hzero
    · refine ⟨_, _, rfl, by simp [Ipv6Option.encoding], .inl ?_, fun hm => by cases hm⟩
      rw [hkind, hzero]
      rfl
    · cases hbyte : s.bytes[s.offset + 1]? with
      | none =>
          dsimp only
          rw [returnMalformed_eq hlt.le]
          exact ⟨_, _, rfl, hmalformed kind⟩
      | some len =>
          dsimp only
          split_ifs with hlen
          · rw [returnMalformed_eq hlt.le]
            exact ⟨_, _, rfl, hmalformed kind⟩
          · obtain ⟨hlt', hbyte⟩ := List.getElem?_eq_some_iff.1 hbyte
            have hend := Nat.not_lt.1 hlen
            rw [Outcome.slice_eq_ok (Nat.le_add_right _ _) hend, Outcome.ok_bind]
            refine ⟨_, _, rfl, by simp [Ipv6Option.encoding], .inl ?_, fun hm => by cases hm⟩
            -- the length of the data is the length byte
            have hlength : min len.toNat (s.bytes.length - (s.offset + 2)) = len.toNat := by omega
            rw [hkind, List.drop_eq_getElem_cons hlt', hbyte]
            simp [Ipv6Option.encoding, Ipv6OptionKind.code_ofCode, hlength]

/-- **The chunks of SCTP tile their bytes**: padding that is cut short is what is left. -/
theorem SctpChunks.next_tiles : Tiles SctpChunk.encoding OptionBytes.ahead
    (next : Prog OptionBytes ε (Option SctpChunk)) where
  finished s h := if_pos (OptionBytes.ahead_eq_nil.1 h)
  taken s h := by
    have hgo := mt OptionBytes.ahead_eq_nil.2 h
    rw [next, if_neg hgo]
    rw [not_or, Bool.not_eq_true, Nat.not_le] at hgo
    obtain ⟨hdone, hlt⟩ := hgo
    have hahead := OptionBytes.ahead_of_not_done hdone
    have hnext : ∀ offset, OptionBytes.ahead { s with offset } = s.bytes.drop offset :=
      fun _ => OptionBytes.ahead_of_not_done hdone
    have hmalformed : Takes SctpChunk.encoding s.ahead (.malformed s.ahead)
        (OptionBytes.ahead { s with done := true }) := .all h rfl
    split_ifs with hheader
    · rw [returnMalformed_eq hdone hlt.le]
      exact ⟨_, _, rfl, hmalformed⟩
    · have hheader := Nat.not_lt.1 hheader
      simp only [Outcome.slice_eq_ok (Nat.le_add_right s.offset 4) hheader, Outcome.ok_bind,
        Nat.add_sub_cancel_left]
      have hfour := List.take_append_drop 4 (s.bytes.drop s.offset)
      have hlength : ((s.bytes.drop s.offset).take 4).length = 4 := by simp; omega
      generalize (s.bytes.drop s.offset).take 4 = header at hfour hlength ⊢
      obtain ⟨chunkType, flags, hi, lo, rfl⟩ := List.length_eq_four.1 hlength
      rw [List.drop_drop] at hfour
      have htype : (Outcome.index [chunkType, flags, hi, lo] 0 : Outcome (ε × OptionBytes) UInt8) =
          .ok chunkType := rfl
      have hflags : (Outcome.index [chunkType, flags, hi, lo] 1 : Outcome (ε × OptionBytes) UInt8) =
          .ok flags := rfl
      have hdrop : [chunkType, flags, hi, lo].drop 2 = [hi, lo] := rfl
      have hlen : beBytes 2 (beNat [hi, lo]) = [hi, lo] := beBytes_beNat [hi, lo]
      have hword : (UInt16.ofNat (beNat [hi, lo])).toNat = beNat [hi, lo] := by
        have hlt := beNat_lt [hi, lo]
        norm_num at hlt
        rw [UInt16.toNat_ofNat', Nat.mod_eq_of_lt hlt]
      simp only [htype, hflags, hdrop, Outcome.ok_bind]
      generalize beNat [hi, lo] = len at hlen hword ⊢
      split_ifs with hshort
      · rw [returnMalformed_eq hdone hlt.le]
        exact ⟨_, _, rfl, hmalformed⟩
      · rw [not_or, Nat.not_lt, Nat.not_lt] at hshort
        obtain ⟨hmin, hend⟩ := hshort
        -- the padding reaches at least to the end of the value
        have hpadded : s.offset + len ≤ min (s.offset + (len + 3) / 4 * 4) s.bytes.length := by
          omega
        rw [Outcome.slice_eq_ok (by omega) hend, Outcome.ok_bind,
          Outcome.slice_eq_ok hpadded (Nat.min_le_right _ _), Outcome.ok_bind]
        refine ⟨_, _, rfl, by simp [SctpChunk.encoding], .inl ?_, fun hm => by cases hm⟩
        have hvalue := drop_eq_append s.bytes (show s.offset + 4 ≤ s.offset + len by omega)
        rw [drop_eq_append s.bytes hpadded] at hvalue
        rw [hahead, hnext, ← hfour]
        simpa [SctpChunk.encoding, SctpChunkType.code_ofCode, hword, hlen] using hvalue

/-! ### The items of a slice -/

/-- **The option iterators neither skip nor invent bytes.**  Each ends, its items in
order are the bytes that it was given, up to an end of options, and only the last item
is malformed. -/
theorem options_tile (bytes : List UInt8) :
    (∃ items, Items (Ipv4Options.next : Prog _ ε _) (.new bytes) items ∧
      Tiled (TypedOption.encoding Ipv4OptionKind.code) bytes items) ∧
    (∃ items, Items (TcpOptions.next : Prog _ ε _) (.new bytes) items ∧
      Tiled (TypedOption.encoding TcpOptionKind.code) bytes items) ∧
    (∃ items, Items (Ipv6Options.next : Prog _ ε _) (.new bytes) items ∧
      Tiled Ipv6Option.encoding bytes items) ∧
    ∃ items, Items (SctpChunks.next : Prog _ ε _) (.new bytes) items ∧
      Tiled SctpChunk.encoding bytes items :=
  ⟨(nextTyped_tiles Ipv4OptionKind.code_ofCode).items (.new bytes),
    (nextTyped_tiles TcpOptionKind.code_ofCode).items (.new bytes),
    Ipv6Options.next_tiles.items (.new bytes), SctpChunks.next_tiles.items (.new bytes)⟩

end Packet
end Maja
