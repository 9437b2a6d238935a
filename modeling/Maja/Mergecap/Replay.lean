/-
# The copies of a replayed file

What `PacketReader::next` hands out, operation for operation: one copy of the
packets of the file for every start time and repeat, each packet as a batch of one
packet for every parallel group.

A copy is known by where it starts.  `copyStart` is that timestamp, with the
saturating arithmetic of the code; a packet then lies as far behind it as it lies
behind the first packet of the file (`copyStamp`).  `items_replay` says that these
are the copies, whatever saturates; the next module says what they are when nothing
does.
-/

import Maja.Mergecap.Reader
import Mathlib.Data.List.Forall2

namespace Maja
namespace Mergecap

open Lib Capture PacketReader

/-- An input file with what it is replayed from. -/
structure Source where
  file : InputFile
  capture : CapturePass
  rng : JitterRng
  rewriter : Rewriter

namespace Source

variable (args : MergeArgs) (src : Source)

/-- The reader of the source, before its first packet. -/
def reader : PacketReader src.rewriter :=
  fromInputFile src.rewriter args src.rng src.file src.capture

/-- The packets of one pass. -/
def packets : List PacketRecord := src.capture.packets

/-- How many passes are made. -/
def passes : ℕ := src.file.startTime.length * src.file.repeatCount

/-- The offsets of the parallel groups. -/
def jitter : List I64 := drawJitter src.file src.rng

/-- The timestamp of the first packet. -/
def firstTime : I64 := (src.packets.head?.map fun p => p.timestamp).getD (I64.ofInt 0)

/-- Where the first packet goes at a start time. -/
def groupOrigin (group : ℕ) : I64 :=
  let start := startNs (src.file.startTime[group]?.getD InputFile.noStart)
  if args.eraseTimestamp.getD false then
    if args.keepSubsecond.getD false then start.saturatingAdd (subsecond src.firstTime) else start
  else src.firstTime.saturatingAdd start

/-- Where a packet goes in a copy that starts at `start`. -/
def copyStamp (start : I64) (packet : PacketRecord) : I64 :=
  (packet.timestamp.saturatingSub src.firstTime).saturatingAdd start

/-- Where the last packet of such a copy goes. -/
def copyEnd (start : I64) : I64 := (src.packets.getLast?.map (src.copyStamp start)).getD start

/-- Where a copy starts: at its start time, or one interval behind the end of the
copy before it. -/
def copyStart : ℕ → I64
  | 0 => src.groupOrigin args 0
  | c + 1 =>
    if (c + 1) % src.file.repeatCount = 0 then
      src.groupOrigin args ((c + 1) / src.file.repeatCount)
    else (src.copyEnd (copyStart c)).saturatingAdd src.file.repeatIntervalNs

end Source

/-- The packet of one parallel group: the packet of the file with another timestamp,
and with the bytes that the rewriter makes of it when there is one. -/
structure CopyOf (W : Rewriter) (packet : PacketRecord) (stamp : I64) (group : ℕ)
    (item : PacketRecord) : Prop where
  timestamp : item.timestamp = stamp
  originalLength : item.originalLength = packet.originalLength
  linkType : item.linkType = packet.linkType
  data : if W.isActive then ∃ w, item.data = (W.rewrite w packet.linkType packet.data group).1
    else item.data = packet.data

/-- The batch of a packet that goes to `stamp`: one copy for every parallel group,
at the offset of the group. -/
def BatchOf (src : Source) (packet : PacketRecord) (stamp : I64) (items : List PacketRecord) :
    Prop :=
  List.Forall₂ (fun group item => CopyOf src.rewriter packet
    (stamp.saturatingAdd (src.jitter[group]?.getD (I64.ofInt 0))) group item)
    (List.range src.file.parallel) items

/-- The batches of a copy that starts at `start`: one for each packet, in the order
of the file. -/
def CopyAt (src : Source) (start : I64) (copy : List (List PacketRecord)) : Prop :=
  List.Forall₂ (fun packet items => BatchOf src packet (src.copyStamp start packet) items)
    src.packets copy

/-! ### Reading a pass -/

/-- A pass without packets has nothing behind its errors. -/
theorem skipErrors_of_packets_nil {pass : CapturePass} (h : pass.packets = []) :
    skipErrors pass = none := by
  induction pass with
  | nil => rfl
  | cons result pass ih =>
    cases result with
    | ok p => simp at h
    | error e => exact ih (by simpa using h)

/-- The first packet of a pass is found behind its errors. -/
theorem skipErrors_of_packets_cons {pass : CapturePass} {p : PacketRecord}
    {ps : List PacketRecord} (h : pass.packets = p :: ps) :
    ∃ rest, skipErrors pass = some (p, rest) ∧ rest.packets = ps := by
  induction pass with
  | nil => simp [CapturePass.packets] at h
  | cons result pass ih =>
    cases result with
    | ok q =>
      rw [CapturePass.packets_ok, List.cons.injEq] at h
      obtain ⟨rfl, hps⟩ := h
      exact ⟨pass, rfl, hps⟩
    | error e => exact ih (by simpa using h)

/-- Every parallel group gets the packet with its own offset. -/
theorem fanOut_spec {W : Rewriter} {ε : Type} (jitter : List I64) (packet : PacketRecord)
    (groups : List ℕ) (hgroups : ∀ group ∈ groups, group < jitter.length) (w : W.State) :
    ∃ items w', (fanOut jitter packet groups w : Outcome ε _) = .ok (items, w') ∧
      List.Forall₂ (fun group item => CopyOf W packet
        (packet.timestamp.saturatingAdd (jitter[group]?.getD (I64.ofInt 0))) group item)
        groups items := by
  induction groups generalizing w with
  | nil => exact ⟨[], w, rfl, .nil⟩
  | cons group groups ih =>
    have hgroup := hgroups group (List.mem_cons_self ..)
    have hindex : (Outcome.index jitter group : Outcome ε I64) = .ok jitter[group] :=
      Outcome.index_eq_ok hgroup
    generalize hdata : (if W.isActive then W.rewrite w packet.linkType packet.data group
      else (packet.data, w)) = rewritten
    obtain ⟨items, w', hitems, hcopies⟩ :=
      ih (fun g hg => hgroups g (List.mem_cons_of_mem _ hg)) rewritten.2
    refine ⟨{ packet with
      timestamp := packet.timestamp.saturatingAdd jitter[group], data := rewritten.1 } :: items,
      w', ?_, .cons ⟨?_, rfl, rfl, ?_⟩ hcopies⟩
    · rw [fanOut, hindex, Outcome.ok_bind, hdata]
      simp [hitems]
    · simp [hgroup]
    · split_ifs at hdata ⊢ with hactive
      · exact ⟨w, by rw [hdata]⟩
      · rw [← hdata]

section Replay

variable {args : MergeArgs} {src : Source}

/-- The fields that a reader of `src` is made with and never changes. -/
structure Configured (args : MergeArgs) (src : Source) (s : PacketReader src.rewriter) : Prop where
  file : s.file = src.file
  capture : s.capture = src.capture
  eraseTimestamp : s.eraseTimestamp = args.eraseTimestamp.getD false
  keepSubsecond : s.keepSubsecond = args.keepSubsecond.getD false
  repeatInterval : s.repeatInterval = src.file.repeatIntervalNs
  parallel : s.parallel = src.file.parallel
  jitter : s.jitter = src.jitter

/-- The other fields do not matter. -/
theorem Configured.update {s : PacketReader src.rewriter} (h : Configured args src s)
    (reader : CapturePass) (current : ℕ) (original first : Option I64) (last : I64)
    (w : src.rewriter.State) :
    Configured args src { s with
      reader := reader
      current := current
      originalFirstPacketTime := original
      firstPacketTime := first
      lastPacketTime := last
      rewriter := w } :=
  ⟨h.file, h.capture, h.eraseTimestamp, h.keepSubsecond, h.repeatInterval, h.parallel, h.jitter⟩

/-- The number of passes is that of the source. -/
theorem Configured.passes {s : PacketReader src.rewriter} (h : Configured args src s) :
    s.passes = src.passes := by
  rw [PacketReader.passes, h.file, Source.passes]

/-- Every group has an offset. -/
theorem length_jitter (src : Source) : src.jitter.length = src.file.parallel := by
  simp [Source.jitter, drawJitter]

/-- Once the packet and its timestamp are found, `next` hands out its batch and
keeps the rest of the state. -/
theorem next_of_restamp {s s₁ s₂ : PacketReader src.rewriter} {p : PacketRecord} {stamp : I64}
    (hconf : Configured args src s₂) (hfetch : fetch (s.passes + 1) s = .ok (some p, s₁))
    (hstamp : restamp p.timestamp s₁ = .ok (stamp, s₂)) :
    ∃ items w, next s = .ok (some items, { s₂ with lastPacketTime := stamp, rewriter := w }) ∧
      BatchOf src p stamp items := by
  obtain ⟨items, w, hitems, hcopies⟩ := @fanOut_spec src.rewriter (Empty × PacketReader src.rewriter)
    src.jitter { p with timestamp := stamp } (List.range src.file.parallel)
    (fun group hgroup => by
      rw [length_jitter]
      exact List.mem_range.1 hgroup) s₂.rewriter
  refine ⟨items, w, ?_, hcopies.imp fun group item h => ⟨h.timestamp, h.originalLength, h.linkType,
    h.data⟩⟩
  simp [next, hfetch, hstamp, hconf.jitter, hconf.parallel, hitems]

/-- What the reader hands out from `s` on. -/
def HandsOut {W : Rewriter} (s : PacketReader W) (P : List (List PacketRecord) → Prop) : Prop :=
  ∃ batches, Items next s batches ∧ P batches

/-- A reader that has handed out all packets of copy `c`. -/
structure EndOfPass (args : MergeArgs) (src : Source) (c : ℕ) (s : PacketReader src.rewriter) :
    Prop where
  conf : Configured args src s
  current : s.current = c
  read : s.reader.packets = []
  last : src.packets ≠ [] → s.lastPacketTime = src.copyEnd (src.copyStart args c)

/-- A reader in the middle of copy `c`, with `ps` still to come. -/
structure InPass (args : MergeArgs) (src : Source) (c : ℕ) (ps : List PacketRecord)
    (s : PacketReader src.rewriter) : Prop where
  conf : Configured args src s
  current : s.current = c
  read : s.reader.packets = ps
  first : s.firstPacketTime = some (src.copyStart args c)
  original : s.originalFirstPacketTime = some src.firstTime
  last : ps = [] → s.lastPacketTime = src.copyEnd (src.copyStart args c)

/-- The last packet of a copy ends it. -/
theorem copyStamp_last {start : I64} {p : PacketRecord} (h : [p] <:+ src.packets) :
    src.copyStamp start p = src.copyEnd start := by
  obtain ⟨front, hfront⟩ := h
  have hlast : src.packets.getLast? = some p := by rw [← hfront]; simp
  simp [Source.copyEnd, hlast]

/-- The first packet of a copy starts it. -/
theorem copyStamp_head {start : I64} {p : PacketRecord} {ps : List PacketRecord}
    (h : src.packets = p :: ps) : src.copyStamp start p = start := by
  have hfirst : src.firstTime = p.timestamp := by simp [Source.firstTime, h]
  have hzero : (p.timestamp.saturatingSub src.firstTime).val = 0 := by
    rw [I64.saturatingSub, hfirst, sub_self, I64.clamp_val (by decide)]
  refine Subtype.ext ?_
  rw [Source.copyStamp, I64.saturatingAdd, hzero, zero_add, I64.clamp_val start.property]

/-- Reading on in a copy: the batches of the packets that are left, then what
follows the copy. -/
theorem InPass.handsOut {c : ℕ} {P : List (List PacketRecord) → Prop}
    (hend : ∀ s, EndOfPass args src c s → HandsOut s P) {ps : List PacketRecord}
    {s : PacketReader src.rewriter} (hs : InPass args src c ps s) (hps : ps <:+ src.packets) :
    HandsOut s fun batches => ∃ copy rest, batches = copy ++ rest ∧ P rest ∧
      List.Forall₂ (fun p items => BatchOf src p (src.copyStamp (src.copyStart args c) p) items)
        ps copy := by
  induction ps generalizing s with
  | nil =>
    obtain ⟨batches, hitems, hP⟩ := hend s ⟨hs.conf, hs.current, hs.read, fun _ => hs.last rfl⟩
    exact ⟨batches, hitems, [], batches, rfl, hP, .nil⟩
  | cons p ps ih =>
    obtain ⟨rest, hskip, hrest⟩ := skipErrors_of_packets_cons hs.read
    have hstamp : restamp p.timestamp { s with reader := rest } =
        .ok (src.copyStamp (src.copyStart args c) p, { s with reader := rest }) := by
      simp [restamp, hs.first, hs.original, Source.copyStamp]
    obtain ⟨items, w, hnext, hbatch⟩ :=
      next_of_restamp (hs.conf.update ..) (fetch_of_some hskip s.passes) hstamp
    obtain ⟨batches, hitems, copy, rest', rfl, hP, hcopy⟩ := ih
      (s := { s with
        reader := rest
        lastPacketTime := src.copyStamp (src.copyStart args c) p
        rewriter := w })
      ⟨hs.conf.update .., hs.current, hrest, hs.first, hs.original, fun hnil => by
        subst hnil
        exact copyStamp_last hps⟩
      ((List.suffix_cons p ps).trans hps)
    exact ⟨_, .next hnext hitems, items :: copy, rest', rfl, hP, .cons hbatch hcopy⟩

/-- The first copy of a group starts at the start time of the group. -/
theorem copyStart_of_mod {c : ℕ} (h : c % src.file.repeatCount = 0) :
    src.copyStart args c = src.groupOrigin args (c / src.file.repeatCount) := by
  cases c with
  | zero => rw [Source.copyStart, Nat.zero_div]
  | succ c => rw [Source.copyStart, if_pos h]

/-- Where the first packet of a pass is put. -/
theorem restamp_first (hvalid : src.file.TimelineOk) {c : ℕ} (hc : c < src.passes)
    {p : PacketRecord} {ps : List PacketRecord} (hpackets : src.packets = p :: ps)
    {s : PacketReader src.rewriter} (hconf : Configured args src s) (hcurrent : s.current = c)
    (hfirst : s.firstPacketTime = none)
    (hlast : c % src.file.repeatCount ≠ 0 →
      s.lastPacketTime.saturatingAdd src.file.repeatIntervalNs = src.copyStart args c) :
    restamp p.timestamp s = .ok (src.copyStart args c, { s with
      originalFirstPacketTime := some src.firstTime
      firstPacketTime := some (src.copyStart args c) }) := by
  have htime : src.firstTime = p.timestamp := by simp [Source.firstTime, hpackets]
  by_cases hmod : c % src.file.repeatCount = 0
  · have hgroup : c / src.file.repeatCount < src.file.startTime.length :=
      (Nat.div_lt_iff_lt_mul hvalid.repeatCount).2 hc
    rw [copyStart_of_mod hmod, Source.groupOrigin, htime]
    simp [restamp, startOfGroup, hfirst, hcurrent, hconf.file, hmod, hconf.eraseTimestamp,
      hconf.keepSubsecond, Outcome.index_eq_ok hgroup, hgroup]
  · rw [← hlast hmod, htime]
    simp [restamp, hfirst, hcurrent, hconf.file, hmod, hconf.repeatInterval]

/-- A copy from its first packet on: its batches, then what follows the copy. -/
theorem handsOut_of_fetch (hvalid : src.file.TimelineOk) {c : ℕ} (hc : c < src.passes)
    {P : List (List PacketRecord) → Prop} (hend : ∀ s, EndOfPass args src c s → HandsOut s P)
    {p : PacketRecord} {ps : List PacketRecord} (hpackets : src.packets = p :: ps)
    {s s₁ : PacketReader src.rewriter} (hfetch : fetch (s.passes + 1) s = .ok (some p, s₁))
    (hconf : Configured args src s₁) (hcurrent : s₁.current = c)
    (hfirst : s₁.firstPacketTime = none) (hread : s₁.reader.packets = ps)
    (hlast : c % src.file.repeatCount ≠ 0 →
      s₁.lastPacketTime.saturatingAdd src.file.repeatIntervalNs = src.copyStart args c) :
    HandsOut s fun batches => ∃ copy rest, batches = copy ++ rest ∧ P rest ∧
      CopyAt src (src.copyStart args c) copy := by
  have hcall := restamp_first hvalid hc hpackets hconf hcurrent hfirst hlast
  obtain ⟨items, w, hnext, hbatch⟩ := next_of_restamp (hconf.update ..) hfetch hcall
  have hstart : src.copyStamp (src.copyStart args c) p = src.copyStart args c :=
    copyStamp_head hpackets
  obtain ⟨batches, hitems, copy, rest, rfl, hP, hcopy⟩ :=
    @InPass.handsOut args src c P hend ps
      { s₁ with
        originalFirstPacketTime := some src.firstTime
        firstPacketTime := some (src.copyStart args c)
        lastPacketTime := src.copyStart args c
        rewriter := w }
      ⟨hconf.update .., hcurrent, hread, rfl, rfl, fun hnil =>
        hstart.symm.trans (copyStamp_last (hpackets ▸ hnil ▸ List.suffix_rfl))⟩
      (hpackets ▸ List.suffix_cons p ps)
  refine ⟨_, .next hnext hitems, items :: copy, rest, rfl, hP, ?_⟩
  rw [CopyAt, hpackets]
  exact .cons (hstart.symm ▸ hbatch) hcopy

/-- A file without packets is read through and ends. -/
theorem fetch_of_empty (hempty : src.packets = []) {fuel : ℕ} {s : PacketReader src.rewriter}
    (hconf : Configured args src s) (hread : s.reader.packets = [])
    (hcurrent : s.current < src.passes) (hfuel : src.passes - s.current ≤ fuel) :
    ∃ s', fetch fuel s = .ok (none, s') := by
  induction fuel generalizing s with
  | zero => omega
  | succ fuel ih =>
    rw [fetch_of_none (skipErrors_of_packets_nil hread), hconf.passes]
    split_ifs with hlast
    · exact ⟨_, rfl⟩
    · refine ih (hconf.update ..) ?_ (show s.current + 1 < src.passes by omega)
        (show src.passes - (s.current + 1) ≤ fuel by omega)
      rw [← hempty, Source.packets, ← hconf.capture]

/-- A reader of such a file hands out nothing. -/
theorem items_of_empty (hempty : src.packets = []) {s : PacketReader src.rewriter}
    (hconf : Configured args src s) (hread : s.reader.packets = [])
    (hcurrent : s.current < src.passes) : Items next s [] := by
  obtain ⟨s', hs'⟩ := @fetch_of_empty args src hempty (s.passes + 1) s hconf hread hcurrent
    (by rw [hconf.passes]; omega)
  exact .done (by simp [next, hs']; rfl)

/-- The batches of the copies in the list, one after the other. -/
def CopiesOf (args : MergeArgs) (src : Source) (cs : List ℕ) (batches : List (List PacketRecord)) :
    Prop :=
  ∃ copies, batches = copies.flatten ∧
    List.Forall₂ (fun c copy => CopyAt src (src.copyStart args c) copy) cs copies

/-- A copy of nothing has no batch. -/
theorem CopiesOf.of_empty (hempty : src.packets = []) (cs : List ℕ) : CopiesOf args src cs [] := by
  refine ⟨List.replicate cs.length [], by simp, ?_⟩
  induction cs with
  | nil => exact .nil
  | cons c cs ih =>
    rw [List.length_cons, List.replicate_succ]
    refine .cons ?_ ih
    rw [CopyAt, hempty]
    exact .nil

/-- One more copy in front. -/
theorem HandsOut.copiesOf {s : PacketReader src.rewriter} {c : ℕ} {cs : List ℕ}
    (h : HandsOut s fun batches => ∃ copy rest, batches = copy ++ rest ∧ CopiesOf args src cs rest ∧
      CopyAt src (src.copyStart args c) copy) :
    HandsOut s (CopiesOf args src (c :: cs)) := by
  obtain ⟨batches, hitems, copy, rest, rfl, ⟨copies, rfl, hcopies⟩, hcopy⟩ := h
  exact ⟨_, hitems, copy :: copies, rfl, .cons hcopy hcopies⟩

/-- What follows the end of a pass: the copies that are left. -/
theorem EndOfPass.handsOut (hvalid : src.file.TimelineOk) {k c : ℕ} (hk : c + 1 + k = src.passes)
    {s : PacketReader src.rewriter} (hs : EndOfPass args src c s) :
    HandsOut s (CopiesOf args src (List.range' (c + 1) k)) := by
  induction k generalizing c s with
  | zero =>
    have hpasses : s.current + 1 = s.passes := by rw [hs.current, hs.conf.passes, ← hk]
    have hfetch := fetch_of_none (skipErrors_of_packets_nil hs.read) s.passes
    rw [if_pos hpasses] at hfetch
    exact ⟨[], .done (by simp [next, hfetch]; rfl), [], rfl, .nil⟩
  | succ k ih =>
    cases hpackets : src.packets with
    | nil =>
      refine ⟨[], ?_, .of_empty hpackets _⟩
      exact items_of_empty hpackets hs.conf hs.read (by rw [hs.current]; omega)
    | cons p ps =>
      obtain ⟨rest, hskip, hrest⟩ := skipErrors_of_packets_cons
        (show s.capture.packets = p :: ps by rw [hs.conf.capture, ← hpackets]; rfl)
      have hpasses : ¬s.current + 1 = s.passes := by rw [hs.current, hs.conf.passes]; omega
      obtain ⟨fuel, hfuel⟩ := Nat.exists_eq_succ_of_ne_zero (show s.passes ≠ 0 by
        rw [hs.conf.passes]; omega)
      have hfetch : fetch (s.passes + 1) s = .ok (some p, { s with
          current := s.current + 1, reader := rest, firstPacketTime := none }) := by
        rw [fetch_of_none (skipErrors_of_packets_nil hs.read), if_neg hpasses, hfuel]
        exact fetch_of_some hskip fuel
      rw [List.range'_succ]
      refine (handsOut_of_fetch hvalid (by omega) (fun t ht => ih (by omega) ht) hpackets hfetch
        (hs.conf.update ..) (by rw [hs.current]) rfl hrest fun hmod => ?_).copiesOf
      rw [hs.last (by simp [hpackets]), Source.copyStart, if_neg hmod]

/-- **What a reader hands out**: one copy of the file after another, as many as there
are passes. -/
theorem items_replay (args : MergeArgs) (src : Source) (hvalid : src.file.TimelineOk) :
    HandsOut (src.reader args) (CopiesOf args src (List.range src.passes)) := by
  have hconf : Configured args src (src.reader args) := ⟨rfl, rfl, rfl, rfl, rfl, rfl, rfl⟩
  have hpos : 0 < src.passes :=
    Nat.mul_pos (List.length_pos_of_ne_nil hvalid.startTime) hvalid.repeatCount
  cases hpackets : src.packets with
  | nil => exact ⟨[], items_of_empty hpackets hconf hpackets hpos, .of_empty hpackets _⟩
  | cons p ps =>
    obtain ⟨k, hk⟩ := Nat.exists_eq_succ_of_ne_zero hpos.ne'
    obtain ⟨rest, hskip, hrest⟩ := skipErrors_of_packets_cons hpackets
    have hfetch : fetch ((src.reader args).passes + 1) (src.reader args) =
        .ok (some p, { src.reader args with reader := rest }) := fetch_of_some hskip _
    rw [hk, List.range_eq_range', List.range'_succ]
    exact (handsOut_of_fetch hvalid hpos (fun t ht => ht.handsOut hvalid (by omega)) hpackets hfetch
      (hconf.update ..) rfl rfl hrest fun hmod => absurd (Nat.zero_mod _) hmod).copiesOf

end Replay

end Mergecap
end Maja
