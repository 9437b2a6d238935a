/-
# Replaying the bytes of a file

`PacketReader::next` once more, now on the bytes of the file: its loop asks a
`SniffedReader`, goes on after an error, and opens the file again at the end of a
pass.

`PacketReader` of the module before takes what a pass hands out for granted.  Here
the sniffed reader hands it out: `nextPacket_lockstep` says that the two readers go
together while passes are left, so that the copies of a file are those of the
packets that its capture reader reads (`replays_file`).  An error costs a read, and
there are no more of them than bytes.

The rewriter is a function here, so it returns on every packet; that of the maps may
panic, and is behind this reader in `Maja.Mergecap.MapReader`.  The number of passes is a
`usize`; a number that stands for it has no bound here.
-/

import Maja.Capture.Sniffed
import Maja.Lib.Lockstep
import Maja.Mergecap.Timeline

namespace Maja
namespace Mergecap

open Lib Capture

variable {W : Rewriter}

namespace PacketReader

/-- The second half of `next`: the batch of a packet that was read. -/
def batch (packet : PacketRecord) : Prog (PacketReader W) Empty (List PacketRecord) := fun s => do
  let (stamp, s) ← restamp packet.timestamp s
  let s := { s with lastPacketTime := stamp }
  let (items, w) ← fanOut s.jitter { packet with timestamp := stamp } (List.range s.parallel)
    s.rewriter
  pure (items, { s with rewriter := w })

/-- `next` is a fetch, and the batch of the packet that it finds. -/
theorem next_eq (s : PacketReader W) : next s = fetch (s.passes + 1) s >>= fun read =>
    match read with
    | (none, s) => .ok (none, s)
    | (some packet, s) => batch packet s >>= fun made => .ok (some made.1, made.2) := by
  unfold next
  refine congrArg _ (funext fun read => ?_)
  obtain ⟨_ | packet, s⟩ := read
  · rfl
  · simp only [batch, Outcome.bind_assoc, Outcome.pure_eq, Outcome.ok_bind]

end PacketReader

/-- `PacketReader`, with the file that it reads. -/
structure FileReader (W : Rewriter) where
  /-- The bytes of the file at `file.path`. -/
  data : List UInt8
  reader : SniffedReader
  /-- The other fields.  Nothing is read from the pass among them. -/
  replay : PacketReader W

namespace FileReader

/-- `PacketReader::from_input_file`. -/
def fromInputFile (W : Rewriter) (args : MergeArgs) (rng : JitterRng) (file : InputFile)
    (data : List UInt8) : Result (FileReader W) := do
  let reader ← SniffedReader.new data
  pure ⟨data, reader, PacketReader.fromInputFile W args rng file []⟩

/-- The loop at the start of `next`.  Every turn is a read. -/
def fetch : ℕ → Prog (FileReader W) Empty (Option PacketRecord)
  | 0 => fun _ => .outOfFuel
  | fuel + 1 => fun s =>
    match s.reader.nextPacket with
    | .ok (some packet, reader) => .ok (some packet, { s with reader := reader })
    | .ok (none, reader) =>
      let s := { s with
        reader := reader
        replay := { s.replay with current := s.replay.current + 1 } }
      if s.replay.current = s.replay.passes then
        .ok (none, s)
      else
        match SniffedReader.new s.data with
        | .ok reader => fetch fuel { s with
            reader := reader
            replay := { s.replay with firstPacketTime := none } }
        | .err _ => .ok (none, s)
        | .panic => .panic
        | .outOfFuel => .outOfFuel
    | .err (_, reader) => fetch fuel { s with reader := reader }
    | .panic => .panic
    | .outOfFuel => .outOfFuel

/-- More reads than there are bytes in all passes, and one for the end of each. -/
def reads (s : FileReader W) : ℕ := (s.replay.passes + 1) * (s.data.length + 1)

/-- `PacketReader::next`. -/
def next : Prog (FileReader W) Empty (Option (List PacketRecord)) := fun s => do
  match ← fetch s.reads s with
  | (none, s) => pure (none, s)
  | (some packet, s) =>
    match s.replay.batch packet with
    | .ok (items, replay) => .ok (some items, { s with replay := replay })
    | .err (e, replay) => .err (e, { s with replay := replay })
    | .panic => .panic
    | .outOfFuel => .outOfFuel

/-- A read that finds a packet ends the loop. -/
theorem fetch_of_packet {s : FileReader W} {packet : PacketRecord} {reader : SniffedReader}
    (h : s.reader.nextPacket = .ok (some packet, reader)) (fuel : ℕ) :
    fetch (fuel + 1) s = .ok (some packet, { s with reader := reader }) := by
  simp only [fetch, h]

/-- After an error the loop reads on. -/
theorem fetch_of_error {s : FileReader W} {e : CaptureError} {reader : SniffedReader}
    (h : s.reader.nextPacket = .err (e, reader)) (fuel : ℕ) :
    fetch (fuel + 1) s = fetch fuel { s with reader := reader } := by
  simp only [fetch, h]

/-- At the end of a pass the file is opened again, unless that was the last pass. -/
theorem fetch_of_end {s : FileReader W} {reader opened : SniffedReader}
    (h : s.reader.nextPacket = .ok (none, reader)) (hopen : SniffedReader.new s.data = .ok opened)
    (fuel : ℕ) :
    fetch (fuel + 1) s =
      if s.replay.current + 1 = s.replay.passes then
        .ok (none, { s with
          reader := reader
          replay := { s.replay with current := s.replay.current + 1 } })
      else fetch fuel { s with
        reader := opened
        replay := { s.replay with current := s.replay.current + 1, firstPacketTime := none } } := by
  simp only [fetch, h, hopen]
  rfl

/-! ### The two readers -/

/-- The reader of the passes, with what this pass still has. -/
def view (pass rest : CapturePass) (s : FileReader W) : PacketReader W :=
  { s.replay with capture := pass, reader := rest }

/-- The sniffed reader has `rest` left of a pass, and `pass` when the file is opened
again. -/
structure ReadsPass (pass rest : CapturePass) (s : FileReader W) : Prop where
  reads : Drains SniffedReader.nextPacket s.reader rest
  length_rest : rest.length ≤ s.data.length
  opens : ∃ reader, SniffedReader.new s.data = .ok reader ∧
    Drains SniffedReader.nextPacket reader pass
  length_pass : pass.length ≤ s.data.length
  current : s.replay.current < s.replay.passes

/-- The reader of the passes is at the same place of them. -/
def SameReplay (pass : CapturePass) (t : PacketReader W) (s : FileReader W) : Prop :=
  ∃ rest, t = s.view pass rest ∧ ReadsPass pass rest s

/-- A pass that has a packet left: the reads up to it. -/
theorem fetch_of_drains_some {s : FileReader W} {rest rest' : CapturePass} {packet : PacketRecord}
    (h : Drains SniffedReader.nextPacket s.reader rest)
    (hskip : PacketReader.skipErrors rest = some (packet, rest')) (fuel : ℕ) :
    ∃ reader, Drains SniffedReader.nextPacket reader rest' ∧ rest'.length ≤ rest.length ∧
      fetch (rest.length + fuel) s = .ok (some packet, { s with reader := reader }) := by
  generalize hr : s.reader = r at h
  induction h generalizing s with
  | done _ => cases hskip
  | @item r reader p results h hs _ =>
    obtain ⟨rfl, rfl⟩ := Prod.mk.inj (Option.some.inj hskip)
    refine ⟨reader, hs, by simp, ?_⟩
    rw [List.length_cons, Nat.add_right_comm]
    exact fetch_of_packet (by rw [hr, h]) _
  | @failed r reader e results h _ ih =>
    obtain ⟨reader', hdrains, hlength, hfetch⟩ := @ih { s with reader := reader } hskip rfl
    refine ⟨reader', hdrains, hlength.trans (by simp), ?_⟩
    rw [List.length_cons, Nat.add_right_comm, fetch_of_error (by rw [hr, h])]
    exact hfetch

/-- A pass that has none: the reads up to its end, and what is done there. -/
theorem fetch_of_drains_none {s : FileReader W} {rest : CapturePass}
    (h : Drains SniffedReader.nextPacket s.reader rest)
    (hskip : PacketReader.skipErrors rest = none) {opened : SniffedReader}
    (hopen : SniffedReader.new s.data = .ok opened) (fuel : ℕ) :
    ∃ reader, fetch (rest.length + 1 + fuel) s =
      if s.replay.current + 1 = s.replay.passes then
        .ok (none, { s with
          reader := reader
          replay := { s.replay with current := s.replay.current + 1 } })
      else fetch fuel { s with
        reader := opened
        replay := { s.replay with current := s.replay.current + 1, firstPacketTime := none } } := by
  generalize hr : s.reader = r at h
  induction h generalizing s with
  | @done r reader h =>
    refine ⟨reader, ?_⟩
    rw [List.length_nil, Nat.zero_add, Nat.add_comm]
    exact fetch_of_end (by rw [hr, h]) hopen fuel
  | item _ _ _ => cases hskip
  | @failed r reader e results h _ ih =>
    obtain ⟨reader', hfetch⟩ := @ih { s with reader := reader } hskip hopen rfl
    refine ⟨reader', ?_⟩
    rw [List.length_cons, Nat.add_right_comm, fetch_of_error (by rw [hr, h])]
    exact hfetch

/-- Both loops find the same packet, on enough fuel: a turn for every pass that is
left, and a read for everything that the passes have, and for the end of each. -/
theorem ReadsPass.fetch {pass rest : CapturePass} {s : FileReader W} (h : ReadsPass pass rest s)
    (n fuel : ℕ) (hn : s.replay.passes - s.replay.current ≤ n)
    (hfuel : rest.length + 1 +
      (s.replay.passes - s.replay.current - 1) * (s.data.length + 1) ≤ fuel) :
    ∃ packet rest' s', PacketReader.fetch n (s.view pass rest) = .ok (packet, s'.view pass rest') ∧
      fetch fuel s = .ok (packet, s') ∧ (packet ≠ none → ReadsPass pass rest' s') := by
  have hcurrent := h.current
  induction n generalizing rest s fuel with
  | zero => omega
  | succ n ih =>
    obtain ⟨fuel, rfl⟩ : ∃ k, fuel = rest.length + 1 + k := ⟨_, (Nat.add_sub_of_le (by omega)).symm⟩
    cases hskip : PacketReader.skipErrors rest with
    | some found =>
      obtain ⟨packet, rest'⟩ := found
      obtain ⟨reader, hreads, hlength, hfetch⟩ := fetch_of_drains_some h.reads hskip (1 + fuel)
      rw [← Nat.add_assoc] at hfetch
      exact ⟨some packet, rest', { s with reader := reader }, PacketReader.fetch_of_some hskip n,
        hfetch, fun _ =>
          ⟨hreads, hlength.trans h.length_rest, h.opens, h.length_pass, h.current⟩⟩
    | none =>
      obtain ⟨opened, hopen, hpass⟩ := h.opens
      obtain ⟨reader, hfetch⟩ := fetch_of_drains_none h.reads hskip hopen fuel
      have hview : PacketReader.fetch (n + 1) (s.view pass rest) =
          if s.replay.current + 1 = s.replay.passes then
            .ok (none, view pass rest { s with
              reader := reader
              replay := { s.replay with current := s.replay.current + 1 } })
          else PacketReader.fetch n (view pass pass { s with
            reader := opened
            replay := { s.replay with
              current := s.replay.current + 1
              firstPacketTime := none } }) :=
        PacketReader.fetch_of_none (s := s.view pass rest) hskip n
      rw [hfetch, hview]
      by_cases hlast : s.replay.current + 1 = s.replay.passes
      · rw [if_pos hlast, if_pos hlast]
        exact ⟨none, rest, _, rfl, rfl, fun hne => absurd rfl hne⟩
      · rw [if_neg hlast, if_neg hlast]
        have hlength := h.length_pass
        obtain ⟨k, hk⟩ : ∃ k, s.replay.passes - s.replay.current - 1 = k + 1 :=
          Nat.exists_eq_succ_of_ne_zero (by omega)
        have hleft : s.replay.passes - (s.replay.current + 1) - 1 = k := by omega
        rw [hk, Nat.succ_mul] at hfuel
        exact ih
          (s := { s with
            reader := opened
            replay := { s.replay with current := s.replay.current + 1, firstPacketTime := none } })
          ⟨hpass, hlength, h.opens, hlength, show s.replay.current + 1 < s.replay.passes by omega⟩
          fuel (show s.replay.passes - (s.replay.current + 1) ≤ n by omega)
          (show pass.length + 1 + (s.replay.passes - (s.replay.current + 1) - 1) *
            (s.data.length + 1) ≤ fuel by rw [hleft]; omega)
          (show s.replay.current + 1 < s.replay.passes by omega)

end FileReader

namespace PacketReader

/-- There is a start time for the copy, or it panics. -/
theorem startOfGroup_cases {ε : Type} (r : PacketReader W) (timestamp : I64) :
    (r.startOfGroup timestamp : Outcome ε I64) = .panic ∨
      ∃ stamp, (r.startOfGroup timestamp : Outcome ε I64) = .ok stamp := by
  unfold startOfGroup
  by_cases hgroup : r.current / r.file.repeatCount < r.file.startTime.length
  · rw [Outcome.index_eq_ok hgroup]
    exact .inr ⟨_, rfl⟩
  · rw [Outcome.index_eq_panic (Nat.le_of_not_lt hgroup)]
    exact .inl rfl

/-- A restamp panics or sets two fields, whatever the passes are. -/
theorem restamp_cases (timestamp : I64) (r : PacketReader W) :
    (∀ pass rest, restamp timestamp { r with capture := pass, reader := rest } = .panic) ∨
      ∃ stamp original first, ∀ pass rest,
        restamp timestamp { r with capture := pass, reader := rest } = .ok (stamp, { r with
          capture := pass
          reader := rest
          originalFirstPacketTime := original
          firstPacketTime := first }) := by
  cases r.firstPacketTime with
  | some first =>
    cases r.originalFirstPacketTime with
    | some original =>
      refine .inr ⟨(timestamp.saturatingSub original).saturatingAdd first, some original, some first,
        fun pass rest => ?_⟩
      simp only [restamp]
    | none =>
      refine .inl fun pass rest => ?_
      simp only [restamp]
  | none =>
    by_cases hmod : r.current % r.file.repeatCount = 0
    · rcases r.startOfGroup_cases (ε := Empty × PacketReader W) timestamp with hstart | ⟨stamp, hstart⟩
      · refine .inl fun pass rest => ?_
        simp only [restamp, if_pos hmod]
        exact congrArg (· >>= _) hstart
      · refine .inr ⟨stamp, some timestamp, some stamp, fun pass rest => ?_⟩
        simp only [restamp, if_pos hmod]
        exact congrArg (· >>= _) hstart
    · refine .inr ⟨r.lastPacketTime.saturatingAdd r.repeatInterval, some timestamp,
        some (r.lastPacketTime.saturatingAdd r.repeatInterval), fun pass rest => ?_⟩
      simp only [restamp, if_neg hmod]
      rfl

/-- Every group has its jitter, or the batch panics. -/
theorem fanOut_cases {ε : Type} (jitter : List I64) (packet : PacketRecord) (groups : List ℕ)
    (w : W.State) :
    (fanOut jitter packet groups w : Outcome ε _) = .panic ∨
      ∃ made, (fanOut jitter packet groups w : Outcome ε _) = .ok made := by
  induction groups generalizing w with
  | nil => exact .inr ⟨_, rfl⟩
  | cons group groups ih =>
    by_cases hgroup : group < jitter.length
    · rw [fanOut, Outcome.index_eq_ok hgroup, Outcome.ok_bind]
      dsimp only
      rcases ih (if W.isActive then W.rewrite w packet.linkType packet.data group
        else (packet.data, w)).2 with h | ⟨made, h⟩
      · rw [h]
        exact .inl rfl
      · rw [h]
        exact .inr ⟨_, rfl⟩
    · rw [fanOut, Outcome.index_eq_panic (Nat.le_of_not_lt hgroup)]
      exact .inl rfl

/-- Making a batch neither looks at the passes nor counts them. -/
theorem batch_cases (packet : PacketRecord) (r : PacketReader W) :
    (∀ pass rest, batch packet { r with capture := pass, reader := rest } = .panic) ∨
      ∃ items stamp original first w, ∀ pass rest,
        batch packet { r with capture := pass, reader := rest } = .ok (items, { r with
          capture := pass
          reader := rest
          originalFirstPacketTime := original
          firstPacketTime := first
          lastPacketTime := stamp
          rewriter := w }) := by
  rcases restamp_cases packet.timestamp r with h | ⟨stamp, original, first, h⟩
  · refine .inl fun pass rest => ?_
    rw [batch, h]
    rfl
  · rcases fanOut_cases (ε := Empty × PacketReader W) r.jitter { packet with timestamp := stamp }
      (List.range r.parallel) r.rewriter with hmade | ⟨⟨items, w⟩, hmade⟩
    · refine .inl fun pass rest => ?_
      rw [batch, h, Outcome.ok_bind]
      dsimp only
      rw [hmade]
      rfl
    · refine .inr ⟨items, stamp, original, first, w, fun pass rest => ?_⟩
      rw [batch, h, Outcome.ok_bind]
      dsimp only
      rw [hmade]
      rfl

end PacketReader

namespace FileReader

/-- **The two readers go together.** -/
theorem nextPacket_lockstep (pass : CapturePass) :
    Lockstep id (SameReplay pass) (PacketReader.next (W := W)) next := by
  rintro t s ⟨rest, rfl, h⟩
  have hcurrent := h.current
  obtain ⟨packet, rest', s', hfetch', hfetch, hreads⟩ := h.fetch
    (s.replay.passes + 1) s.reads (by omega) (by
      have hlength := h.length_rest
      have hle : (s.replay.passes - s.replay.current - 1) * (s.data.length + 1) ≤
          s.replay.passes * (s.data.length + 1) := Nat.mul_le_mul_right _ (by omega)
      rw [reads, Nat.succ_mul]
      omega)
  rw [PacketReader.next_eq, show (s.view pass rest).passes = s.replay.passes from rfl, hfetch']
  unfold next
  rw [hfetch]
  cases packet with
  | none => exact .none
  | some packet =>
    simp only [Outcome.ok_bind]
    rcases PacketReader.batch_cases packet s'.replay with
      hbatch | ⟨items, stamp, original, first, w, hbatch⟩
    · have hview : PacketReader.batch packet (s'.view pass rest') = .panic := hbatch pass rest'
      have hself : PacketReader.batch packet s'.replay = .panic := hbatch _ _
      rw [hview, hself]
      exact .panic
    · have hview := hbatch pass rest'
      have hself := hbatch s'.replay.capture s'.replay.reader
      have hreads := hreads (by simp)
      rw [view, hview, hself]
      exact .some ⟨rest', rfl, hreads.reads, hreads.length_rest, hreads.opens, hreads.length_pass,
        hreads.current⟩

end FileReader

/-! ### The copies of a file -/

/-- A copy that starts at `start` keeps the distances of the file, and shifts every
group by its jitter, where nothing saturates. -/
def KeepsOffsets (src : Source) (start : I64) (copy : List (List PacketRecord)) : Prop :=
  List.Forall₂ (fun packet items => ∀ (group : ℕ) (item : PacketRecord) (jitter : I64),
    items[group]? = some item → src.jitter[group]? = some jitter →
    I64.InRange (packet.timestamp.val - src.origin) →
    I64.InRange (start.val + (packet.timestamp.val - src.origin)) →
    I64.InRange (start.val + (packet.timestamp.val - src.origin) + jitter.val) →
    item.timestamp.val = start.val + (packet.timestamp.val - src.origin) + jitter.val)
    src.packets copy

/-- The copy after one that starts at `start`, in the same group, starts one interval
behind its last packet, where nothing saturates. -/
def RepeatsAfter (src : Source) (start next : I64) : Prop :=
  ∀ last, src.packets.getLast? = some last → I64.InRange (last.timestamp.val - src.origin) →
    I64.InRange (start.val + (last.timestamp.val - src.origin)) →
    I64.InRange (start.val + (last.timestamp.val - src.origin) + src.file.repeatIntervalNs.val) →
    next.val = start.val + (last.timestamp.val - src.origin) + src.file.repeatIntervalNs.val

/-- The copies of a file: one for every start time and repeat, of all packets in the
order of the file, one batch of a packet for every parallel group each. -/
structure CopiesFile (src : Source) (copies : List (List (List PacketRecord))) : Prop where
  count : copies.length = src.file.startTime.length * src.file.repeatCount
  batches : ∀ copy ∈ copies, List.Forall₂
    (fun packet items => ∃ stamp, BatchOf src packet stamp items) src.packets copy
  times : ∃ start : ℕ → I64,
    (∀ c copy, copies[c]? = some copy → KeepsOffsets src (start c) copy) ∧
      ∀ c, c + 1 < copies.length → (c + 1) % src.file.repeatCount ≠ 0 →
        RepeatsAfter src (start c) (start (c + 1))

/-- A copy keeps the distances of the file. -/
theorem CopyAt.keepsOffsets {src : Source} {start : I64} {copy : List (List PacketRecord)}
    (h : CopyAt src start copy) : KeepsOffsets src start copy := by
  refine List.Forall₂.imp (fun packet items hbatch => ?_) h
  intro group item jitter hitem hjitter hdistance hstamp hrange
  obtain ⟨hlength, hcopies⟩ := List.forall₂_iff_get.1 hbatch
  obtain ⟨hgroup, rfl⟩ := List.getElem?_eq_some_iff.1 hitem
  have hcopy := (hcopies group (hlength ▸ hgroup) hgroup).timestamp
  simp only [List.get_eq_getElem, List.getElem_range, hjitter, Option.getD_some] at hcopy
  rw [hcopy, I64.saturatingAdd, copyStamp_val hdistance hstamp, I64.clamp_val hrange]

/-- The copies of `items_replay` are the copies of the file. -/
theorem CopiesFile.of_copyAt {args : MergeArgs} {src : Source}
    {copies : List (List (List PacketRecord))}
    (h : List.Forall₂ (fun c copy => CopyAt src (src.copyStart args c) copy)
      (List.range src.passes) copies) : CopiesFile src copies := by
  obtain ⟨hlength, hcopies⟩ := List.forall₂_iff_get.1 h
  have hcopy : ∀ c copy, copies[c]? = some copy → CopyAt src (src.copyStart args c) copy := by
    intro c copy hc
    obtain ⟨hlt, rfl⟩ := List.getElem?_eq_some_iff.1 hc
    have hat := hcopies c (hlength ▸ hlt) hlt
    simpa using hat
  refine ⟨?_, ?_, src.copyStart args, ?_, ?_⟩
  · rw [← hlength, List.length_range, Source.passes]
  · intro copy hmem
    obtain ⟨c, hc⟩ := List.mem_iff_getElem?.1 hmem
    exact List.Forall₂.imp (fun packet items hbatch => ⟨_, hbatch⟩) (hcopy c copy hc)
  · exact fun c copy hc => (hcopy c copy hc).keepsOffsets
  · intro c _ hmod last hlast hdistance hstamp hrange
    have hend : src.copyEnd (src.copyStart args c) = src.copyStamp (src.copyStart args c) last := by
      rw [Source.copyEnd, hlast, Option.map_some, Option.getD_some]
    rw [Source.copyStart, if_neg hmod, hend, I64.saturatingAdd, copyStamp_val hdistance hstamp,
      I64.clamp_val hrange]

/-- **A file is replayed exactly.**  Every call of `next` returns, and up to its first
`None` it has handed out the copies of the packets that the capture reader reads. -/
theorem FileReader.replays_file (W : Rewriter) (args : MergeArgs) (rng : JitterRng)
    {file : InputFile} (hvalid : file.validate = .ok ()) {data : List UInt8}
    {reader : SniffedReader} (hopen : SniffedReader.new data = .ok reader)
    (hpanic : ∀ r, Reaches SniffedReader.nextPacket reader r → r.nextPacket ≠ .panic) :
    ∃ s capture copies, fromInputFile W args rng file data = .ok s ∧
      Drains SniffedReader.nextPacket reader capture ∧ Items next s copies.flatten ∧
        CopiesFile ⟨file, capture, rng, W⟩ copies := by
  obtain ⟨capture, hdrains, hlength⟩ := SniffedReader.exists_drains hopen hpanic
  have htimeline : file.TimelineOk := .of_validate hvalid
  obtain ⟨batches, hitems, copies, rfl, hcopies⟩ :=
    items_replay args ⟨file, capture, rng, W⟩ htimeline
  refine ⟨⟨data, reader, PacketReader.fromInputFile W args rng file []⟩, capture, copies, ?_,
    hdrains, ?_, .of_copyAt hcopies⟩
  · rw [fromInputFile, hopen]
    rfl
  · have hpos : 0 < file.startTime.length * file.repeatCount :=
      Nat.mul_pos (List.length_pos_of_ne_nil htimeline.startTime) htimeline.repeatCount
    have hsame : SameReplay capture (Source.reader args ⟨file, capture, rng, W⟩)
        ⟨data, reader, PacketReader.fromInputFile W args rng file []⟩ :=
      ⟨capture, rfl, hdrains, hlength, ⟨reader, hopen, hdrains⟩, hlength, hpos⟩
    have hrun := (nextPacket_lockstep capture).runs hsame (items_iff_runs.1 hitems)
    rw [List.map_id] at hrun
    exact items_iff_runs.2 hrun

end Mergecap
end Maja
