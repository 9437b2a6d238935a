/-
# Replaying an input file

`PacketReader` of `tools/maja-mergecap/src/main.rs`.  A capture is what its reader
hands out on one pass over the file, packets and errors; every pass over the file
hands out the same.  A file is read once for every start time and repeat, and
every packet becomes a batch of one packet for each parallel group.

The rewriter changes the bytes of a packet and nothing else, so it is a parameter,
and so is the generator that the jitter is drawn from.  `Maja.Mergecap.MapReader` puts in
the rewriter of the maps, with its panics.
-/

import Maja.Capture.Basic
import Maja.Lib.Iterate
import Maja.Mergecap.Config

namespace Maja
namespace Mergecap

open Lib Capture

/-- What `PacketReader` uses of a `Rewriter` that returns: it may replace the bytes of the
packet of a parallel group. -/
structure Rewriter where
  State : Type
  initial : State
  /-- `is_active`. -/
  isActive : Bool
  /-- `rewrite`, on the parsed packet. -/
  rewrite : State → LinkType → List UInt8 → ℕ → List UInt8 × State

/-- `random_range(0..bound)` of a seeded generator, for the `group`-th draw. -/
structure JitterRng where
  randomRange : ℕ → ℕ → ℕ
  randomRange_lt : ∀ group bound, 0 < bound → randomRange group bound < bound

/-- What one pass over a capture file hands out, up to `Ok(None)`. -/
abbrev CapturePass : Type := List (Except CaptureError PacketRecord)

/-- The packets of a pass. -/
def CapturePass.packets (pass : CapturePass) : List PacketRecord :=
  pass.filterMap Except.toOption

/-- A packet is one of the packets. -/
@[simp] theorem CapturePass.packets_ok (p : PacketRecord) (pass : CapturePass) :
    packets (.ok p :: pass) = p :: packets pass := rfl

/-- An error is no packet. -/
@[simp] theorem CapturePass.packets_error (e : CaptureError) (pass : CapturePass) :
    packets (.error e :: pass) = packets pass := rfl

/-- `PacketReader`. -/
structure PacketReader (W : Rewriter) where
  file : InputFile
  /-- What every pass over the file hands out. -/
  capture : CapturePass
  /-- What the current pass still has. -/
  reader : CapturePass
  current : ℕ
  originalFirstPacketTime : Option I64
  firstPacketTime : Option I64
  lastPacketTime : I64
  eraseTimestamp : Bool
  keepSubsecond : Bool
  repeatInterval : I64
  parallel : ℕ
  jitter : List I64
  rewriter : W.State

namespace PacketReader

variable {W : Rewriter}

/-- One constant offset for every parallel group: none for group 0. -/
def drawJitter (file : InputFile) (rng : JitterRng) : List I64 :=
  (List.range file.parallel).map fun group =>
    if group = 0 ∨ file.parallelJitterNs = 0 then I64.ofInt 0
    else I64.ofWord (rng.randomRange group file.parallelJitterNs)

/-- `PacketReader::from_input_file`, for a file that opens. -/
def fromInputFile (W : Rewriter) (args : MergeArgs) (rng : JitterRng) (file : InputFile)
    (capture : CapturePass) : PacketReader W where
  file := file
  capture := capture
  reader := capture
  current := 0
  originalFirstPacketTime := none
  firstPacketTime := none
  lastPacketTime := I64.ofInt 0
  eraseTimestamp := args.eraseTimestamp.getD false
  keepSubsecond := args.keepSubsecond.getD false
  repeatInterval := file.repeatIntervalNs
  parallel := file.parallel
  jitter := drawJitter file rng
  rewriter := W.initial

/-- How many passes are made over the file. -/
def passes (s : PacketReader W) : ℕ := s.file.startTime.length * s.file.repeatCount

/-- The next packet of a pass: an error is logged and skipped. -/
def skipErrors : CapturePass → Option (PacketRecord × CapturePass)
  | [] => none
  | .ok packet :: rest => some (packet, rest)
  | .error _ :: rest => skipErrors rest

/-- The loop at the start of `next`: the next packet of this pass or of the next
one that has any, reopening the file in between. -/
def fetch : ℕ → Prog (PacketReader W) Empty (Option PacketRecord)
  | 0 => fun _ => .outOfFuel
  | fuel + 1 => fun s =>
      match skipErrors s.reader with
      | some (packet, rest) => .ok (some packet, { s with reader := rest })
      | none =>
          let s := { s with current := s.current + 1 }
          if s.current = s.passes then
            .ok (none, s)
          else
            fetch fuel { s with reader := s.capture, firstPacketTime := none }

/-- A pass that has a packet left. -/
theorem fetch_of_some {s : PacketReader W} {packet : PacketRecord} {rest : CapturePass}
    (h : skipErrors s.reader = some (packet, rest)) (fuel : ℕ) :
    fetch (fuel + 1) s = .ok (some packet, { s with reader := rest }) := by
  simp [fetch, h]

/-- A pass that has none left: the last one ends the file, another one is begun. -/
theorem fetch_of_none {s : PacketReader W} (h : skipErrors s.reader = none) (fuel : ℕ) :
    fetch (fuel + 1) s =
      if s.current + 1 = s.passes then .ok (none, { s with current := s.current + 1 })
      else fetch fuel { s with
        current := s.current + 1, reader := s.capture, firstPacketTime := none } := by
  simp only [fetch, h]
  rfl

/-- `i64::from(start_time) * 1_000_000_000`, which always fits. -/
def startNs (start : {s : ℤ // -2 ^ 31 ≤ s ∧ s ≤ 2 ^ 31 - 1}) : I64 :=
  ⟨start.val * 1000000000, by have := start.property; constructor <;> omega⟩

/-- `timestamp % 1_000_000_000`, of the sign of the timestamp. -/
def subsecond (timestamp : I64) : I64 :=
  ⟨timestamp.val.tmod 1000000000, by
    have := Int.lt_tmod_of_pos timestamp.val (show (0 : ℤ) < 1000000000 by norm_num)
    have := Int.tmod_lt_of_pos timestamp.val (show (0 : ℤ) < 1000000000 by norm_num)
    constructor <;> omega⟩

/-- Where the first packet of a start time goes.  `repeat` is at least one in a
valid configuration. -/
def startOfGroup {ε : Type} (s : PacketReader W) (timestamp : I64) : Outcome ε I64 := do
  let start ← Outcome.index s.file.startTime (s.current / s.file.repeatCount)
  pure (if s.eraseTimestamp then
      if s.keepSubsecond then (startNs start).saturatingAdd (subsecond timestamp)
      else startNs start
    else timestamp.saturatingAdd (startNs start))

/-- Where a packet goes on the output's timeline. -/
def restamp (timestamp : I64) : Prog (PacketReader W) Empty I64 := fun s =>
  match s.firstPacketTime with
  | some first =>
      match s.originalFirstPacketTime with
      | some original => .ok ((timestamp.saturatingSub original).saturatingAdd first, s)
      | none => .panic
  | none => do
      let s := { s with originalFirstPacketTime := some timestamp }
      let stamp ←
        if s.current % s.file.repeatCount = 0 then
          s.startOfGroup timestamp
        else
          pure (s.lastPacketTime.saturatingAdd s.repeatInterval)
      pure (stamp, { s with firstPacketTime := some stamp })

/-- The packets of the parallel groups: each with its group's jitter, and
rewritten when the rewriter is active. -/
def fanOut {ε : Type} (jitter : List I64) (packet : PacketRecord) :
    List ℕ → W.State → Outcome ε (List PacketRecord × W.State)
  | [], w => .ok ([], w)
  | group :: groups, w => do
      let offset ← Outcome.index jitter group
      let (data, w) := if W.isActive then W.rewrite w packet.linkType packet.data group
        else (packet.data, w)
      let (items, w) ← fanOut jitter packet groups w
      pure ({ packet with timestamp := packet.timestamp.saturatingAdd offset, data := data } ::
        items, w)

/-- `PacketReader::next`. -/
def next : Prog (PacketReader W) Empty (Option (List PacketRecord)) := fun s => do
  match ← fetch (s.passes + 1) s with
  | (none, s) => pure (none, s)
  | (some packet, s) => do
      let (stamp, s) ← restamp packet.timestamp s
      let s := { s with lastPacketTime := stamp }
      let (items, w) ← fanOut s.jitter { packet with timestamp := stamp } (List.range s.parallel)
        s.rewriter
      pure (some items, { s with rewriter := w })

end PacketReader

/-- A batch as `merge_impl` hands it to the merge: every packet under its
timestamp. -/
def stamped (items : List PacketRecord) : List (I64 × PacketRecord) :=
  items.map fun packet => (packet.timestamp, packet)

end Mergecap
end Maja
