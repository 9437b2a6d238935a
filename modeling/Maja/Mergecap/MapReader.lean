/-
# Replaying a file through its maps

`PacketReader` of `tools/maja-mergecap/src/main.rs` as a whole: the reader of the file,
and behind it the rewriter that every packet of a batch goes through.

Between two calls of `next` the other files go on.  What they may change is the
allocation that a map shares with them, so a `Run` puts any allocation with the right
slots and sequences in the place of the file's one.
-/

import Maja.Mergecap.FileReader
import Maja.Mergecap.Map.Ready

namespace Maja
namespace Mergecap

open Lib Capture Packet

variable {ρ : Type} [StdRng ρ]

/-- `PacketReader`, with the rewriter of the file. -/
structure MapReader (ρ : Type) where
  reader : FileReader noRewriter
  rewriter : MapRewriter ρ

/-- The allocations of the runtime have the slots and sequences of their maps. -/
def MapRuntime.Sound (runtime : MapRuntime ρ) : Prop :=
  ∀ flow cfg global, runtime.lookup flow = some global → FlowCfg.compile flow = .ok cfg →
    global.allocation.Full cfg

namespace MapReader

/-- `PacketReader::from_input_file`, or nothing where it fails. -/
def fromInputFile (settings : Settings) (index : ℕ) (file : InputFile) (data : List UInt8)
    (runtime : MapRuntime ρ) : Option (MapReader ρ × MapRuntime ρ) :=
  let seed := settings.seed + .ofNat index
  match FileReader.fromInputFile noRewriter settings.args (settings.jitterRng seed) file data,
    MapRewriter.new file seed settings.seed file.parallel settings.fixChecksum runtime with
  | .ok reader, .ok (rewriter, runtime) => some (⟨reader, rewriter⟩, runtime)
  | _, _ => none

/-- `PacketReader::next`. -/
def next (checks : Bool) : Prog (MapReader ρ) Empty (Option (List Written)) := fun s =>
  match FileReader.next s.reader with
  | .ok (none, reader) => .ok (none, { s with reader })
  | .ok (some items, reader) =>
    match rewriteBatch checks items s.rewriter with
    | .ok (written, rewriter) => .ok (some written, ⟨reader, rewriter⟩)
    | .err (e, _) => e.elim
    | .panic => .panic
    | .outOfFuel => .outOfFuel
  | .err (e, _) => e.elim
  | .panic => .panic
  | .outOfFuel => .outOfFuel

/-- The checksums of the batch that is read next can be set. -/
def Clear (checks : Bool) (s : MapReader ρ) : Prop :=
  ∀ items reader, FileReader.next s.reader = .ok (some items, reader) →
    ItemsClear checks items.zipIdx s.rewriter

/-- Calls of `next`, with other files going on in between: the checksums could be set at
every call. -/
inductive Run (checks : Bool) (s : MapReader ρ) : List (List Written) → MapReader ρ → Prop
  | start : Run checks s [] s
  | call {given : List (List Written)} {t t' : MapReader ρ} {made : List Written} :
      Run checks s given t → t.Clear checks → next checks t = .ok (some made, t') →
      Run checks s (given ++ [made]) t'
  | shares {given : List (List Written)} {t : MapReader ρ} {a : Allocation ρ} :
      Run checks s given t → (∀ flow, t.rewriter.flow = some flow → a.Full flow.cfg) →
      Run checks s given { t with rewriter := t.rewriter.borrow a }

end MapReader

/-- What a batch of the timeline is made into: every packet with the addresses and
checksums of its bytes rewritten, for its group. -/
def BatchRewritten (items : List PacketRecord) (made : List Written) : Prop :=
  List.Forall₂ (fun x written => RewrittenFrom x.1 written.packet ∧ written.group = x.2)
    items.zipIdx made

/-! ### Opening a file -/

omit [StdRng ρ] in
/-- A new runtime has no allocation. -/
theorem MapRuntime.sound_empty : MapRuntime.Sound (∅ : MapRuntime ρ) := by
  intro flow cfg global hlookup
  rw [AList.lookup_empty] at hlookup
  cases hlookup

/-- The allocation that is made or found for a map has its slots and sequences. -/
theorem MapRuntime.globalAllocation_full {flow : FlowMap} {cfg : FlowCfg} {seed : UInt64}
    {groups : ℕ} {runtime runtime' : MapRuntime ρ} {a : Allocation ρ}
    (hcompile : FlowCfg.compile flow = .ok cfg) (hsound : runtime.Sound)
    (h : MapRuntime.globalAllocation flow cfg seed groups runtime = .ok (a, runtime')) :
    a.Full cfg ∧ runtime'.Sound := by
  unfold MapRuntime.globalAllocation at h
  split at h
  · rename_i global hlookup
    split_ifs at h
    obtain ⟨rfl, rfl⟩ := Prod.mk.inj (Outcome.ok.inj h)
    exact ⟨hsound flow cfg global hlookup hcompile, hsound⟩
  · obtain ⟨rfl, rfl⟩ := Prod.mk.inj (Outcome.ok.inj h)
    refine ⟨Allocation.new_full _ _ _ _, fun flow' cfg' global hlookup hcompile' => ?_⟩
    by_cases hflow : flow' = flow
    · subst hflow
      rw [AList.lookup_insert] at hlookup
      obtain rfl := Option.some.inj hlookup
      obtain rfl := Except.ok.inj (hcompile.symm.trans hcompile')
      exact Allocation.new_full _ _ _ _
    · rw [AList.lookup_insert_ne hflow] at hlookup
      exact hsound flow' cfg' global hlookup hcompile'

/-- The flow map of a new rewriter is ready. -/
theorem MapRewriter.newFlow_ready {file : InputFile} {fileSeed globalSeed : UInt64} {groups : ℕ}
    {runtime runtime' : MapRuntime ρ} {flow : Option (FlowState ρ)} (hsound : runtime.Sound)
    (h : MapRewriter.newFlow file fileSeed globalSeed groups runtime = .ok (flow, runtime')) :
    ∀ s, flow = some s → s.Ready groups := by
  cases hmap : file.flowMap with
  | none =>
    rw [MapRewriter.newFlow, hmap] at h
    obtain ⟨rfl, rfl⟩ := Prod.mk.inj (Outcome.ok.inj h)
    nofun
  | some map =>
    rw [MapRewriter.newFlow, hmap] at h
    obtain ⟨⟨cfg, runtime₁⟩, hcompile, h⟩ := Outcome.bind_eq_ok.1 h
    obtain ⟨⟨allocation, runtime₂⟩, hallocation, h⟩ := Outcome.bind_eq_ok.1 h
    obtain ⟨rfl, rfl⟩ := Prod.mk.inj (Outcome.ok.inj h)
    obtain ⟨hcfg, rfl⟩ : FlowCfg.compile map = .ok cfg ∧ runtime₁ = runtime := by
      cases hresult : FlowCfg.compile map with
      | ok cfg' =>
        rw [hresult] at hcompile
        obtain ⟨rfl, rfl⟩ := Prod.mk.inj (Outcome.ok.inj hcompile)
        exact ⟨rfl, rfl⟩
      | error e =>
        rw [hresult] at hcompile
        cases hcompile
    intro s hs
    obtain rfl := Option.some.inj hs
    refine FlowState.ready_new fun a ha => ?_
    subst ha
    cases hscope : map.allocScope with
    | file =>
      rw [MapRewriter.allocationOf, hscope] at hallocation
      cases hallocation
    | global =>
      rw [MapRewriter.allocationOf, hscope] at hallocation
      obtain ⟨⟨a', runtime₃⟩, hglobal, hallocation⟩ := Outcome.bind_eq_ok.1 hallocation
      cases hallocation
      exact (MapRuntime.globalAllocation_full hcfg hsound hglobal).1

/-- A file that opens has a rewriter that is ready for its groups. -/
theorem MapReader.fromInputFile_ready {settings : Settings} {index : ℕ} {file : InputFile}
    {data : List UInt8} {runtime runtime' : MapRuntime ρ} {s : MapReader ρ} (hsound : runtime.Sound)
    (h : MapReader.fromInputFile settings index file data runtime = some (s, runtime')) :
    FileReader.fromInputFile noRewriter settings.args
        (settings.jitterRng (settings.seed + .ofNat index)) file data = .ok s.reader ∧
      s.rewriter.Ready file.parallel := by
  unfold MapReader.fromInputFile at h
  dsimp only at h
  split at h
  · rename_i hreader hrewriter
    obtain ⟨rfl, rfl⟩ := Prod.mk.inj (Option.some.inj h)
    refine ⟨hreader, ?_⟩
    obtain ⟨⟨flow, runtime₁⟩, hflow, hrewriter⟩ := Outcome.bind_eq_ok.1 hrewriter
    obtain ⟨⟨direct, runtime₂⟩, -, hrewriter⟩ := Outcome.bind_eq_ok.1 hrewriter
    obtain ⟨rfl, rfl⟩ := Prod.mk.inj (Outcome.ok.inj hrewriter)
    exact MapRewriter.newFlow_ready hsound hflow
  · cases h

/-! ### Runs -/

omit [StdRng ρ] in
/-- A rewriter with another allocation of the right shape is ready. -/
theorem MapRewriter.Ready.borrow {rewriter : MapRewriter ρ} {n : ℕ} (h : rewriter.Ready n)
    {a : Allocation ρ} (ha : ∀ flow, rewriter.flow = some flow → a.Full flow.cfg) :
    (rewriter.borrow a).Ready n := by
  intro s hs
  obtain ⟨flow, hflow, rfl⟩ := Option.map_eq_some_iff.1 hs
  exact ⟨(h flow hflow).groups, fun _ => ⟨a, rfl, ha flow hflow⟩⟩

/-- A batch of the timeline has a packet for every parallel group. -/
theorem CopiesFile.length_batch {src : Source} {copies : List (List (List PacketRecord))}
    (h : CopiesFile src copies) {items : List PacketRecord} (hitems : items ∈ copies.flatten) :
    items.length = src.file.parallel := by
  obtain ⟨copy, hcopy, hitems⟩ := List.mem_flatten.1 hitems
  obtain ⟨k, hk, rfl⟩ := List.getElem_of_mem hitems
  obtain ⟨hlength, hbatches⟩ := List.forall₂_iff_get.1 (h.batches copy hcopy)
  obtain ⟨stamp, hbatch⟩ := hbatches k (hlength ▸ hk) hk
  have hlen := hbatch.length_eq
  rw [List.length_range] at hlen
  exact hlen.symm

/-- A batch whose checksums can be set is rewritten. -/
theorem rewriteBatch_returns {checks : Bool} {items : List PacketRecord} {rewriter : MapRewriter ρ}
    {n : ℕ} (h : rewriter.Ready n) (hlength : items.length = n)
    (hclear : ItemsClear checks items.zipIdx rewriter) :
    ∃ made rewriter', rewriteBatch checks items rewriter = .ok (made, rewriter') ∧
      rewriter'.Ready n ∧ BatchRewritten items made := by
  cases items with
  | nil => exact ⟨[], rewriter, rfl, h, .nil⟩
  | cons origin items =>
    have hgroups : ∀ x ∈ (origin :: items).zipIdx, x.2 < n := by
      intro x hx
      have hlt := List.snd_lt_of_mem_zipIdx hx
      omega
    obtain ⟨made, rewriter', hrun, h', hall⟩ :=
      rewriteItems_returns origin h hgroups hclear
    exact ⟨made, rewriter', hrun, h', hall.imp fun x written hx => ⟨hx.1, hx.2.2⟩⟩

namespace MapReader

variable {checks : Bool} {s t : MapReader ρ} {n : ℕ}

/-- A reader with these batches of the timeline to come, and a rewriter that is ready. -/
structure Follows (n : ℕ) (rest : List (List PacketRecord)) (t : MapReader ρ) : Prop where
  items : Items FileReader.next t.reader rest
  length : ∀ items ∈ rest, items.length = n
  ready : t.rewriter.Ready n

/-- After the last batch `next` returns `None`. -/
theorem Follows.next_nil (checks : Bool) (h : Follows n [] t) :
    ∃ t', next checks t = .ok (none, t') := by
  cases h.items with
  | done hnext =>
    unfold next
    rw [hnext]
    exact ⟨_, rfl⟩

/-- **A call of `next`** hands out the next batch, rewritten, where its checksums can be
set. -/
theorem Follows.next_cons {items : List PacketRecord} {rest : List (List PacketRecord)}
    (h : Follows n (items :: rest) t) (hclear : t.Clear checks) :
    ∃ made t', next checks t = .ok (some made, t') ∧ BatchRewritten items made ∧
      Follows n rest t' := by
  obtain ⟨hitems, hlength, hready⟩ := h
  cases hitems with
  | next hnext hrest =>
    obtain ⟨made, rewriter', hrun, hready', hmade⟩ :=
      rewriteBatch_returns hready (hlength _ List.mem_cons_self) (hclear _ _ hnext)
    refine ⟨made, ⟨_, rewriter'⟩, ?_, hmade, hrest,
      fun items hmem => hlength items (List.mem_cons_of_mem _ hmem), hready'⟩
    unfold next
    rw [hnext]
    dsimp only
    rw [hrun]

/-- **A run** has handed out the first batches of the timeline, rewritten. -/
theorem Follows.run {batches : List (List PacketRecord)} (h : Follows n batches s)
    {given : List (List Written)} (hrun : Run checks s given t) :
    ∃ done rest, batches = done ++ rest ∧ List.Forall₂ BatchRewritten done given ∧
      Follows n rest t := by
  induction hrun with
  | start => exact ⟨[], batches, rfl, .nil, h⟩
  | @call given t t' made _ hclear hcall ih =>
    obtain ⟨done, rest, rfl, hgiven, hfollows⟩ := ih
    cases rest with
    | nil =>
      obtain ⟨t'', hnone⟩ := hfollows.next_nil checks
      cases hnone.symm.trans hcall
    | cons items rest =>
      obtain ⟨made', t'', hsome, hmade, hfollows'⟩ := hfollows.next_cons hclear
      cases hsome.symm.trans hcall
      refine ⟨done ++ [items], rest, by simp, ?_, hfollows'⟩
      exact List.rel_append hgiven (.cons hmade .nil)
  | @shares given t a _ ha ih =>
    obtain ⟨done, rest, hbatches, hgiven, hfollows⟩ := ih
    exact ⟨done, rest, hbatches, hgiven, hfollows.items, hfollows.length, hfollows.ready.borrow ha⟩

/-- **A file is replayed exactly while its checksums can be set.**  In every run the
reader has handed out the first batches of the copies of the packets that the capture
reader reads, rewritten; the next call returns the next batch, where its checksums can be
set, and `None` behind the last one. -/
theorem replay_of_clear (settings : Settings) (index : ℕ) {file : InputFile}
    (hvalid : file.validate = .ok ()) {data : List UInt8} {reader : SniffedReader}
    (hopen : SniffedReader.new data = .ok reader)
    (hpanic : ∀ r, Reaches SniffedReader.nextPacket reader r → r.nextPacket ≠ .panic)
    {runtime runtime' : MapRuntime ρ} (hsound : runtime.Sound) {s : MapReader ρ}
    (hnew : fromInputFile settings index file data runtime = some (s, runtime')) :
    ∃ capture copies, Drains SniffedReader.nextPacket reader capture ∧
      CopiesFile ⟨file, capture, settings.jitterRng (settings.seed + .ofNat index), noRewriter⟩
        copies ∧
      ∀ given t, Run settings.checks s given t → ∃ done rest, copies.flatten = done ++ rest ∧
        List.Forall₂ BatchRewritten done given ∧
        (rest = [] → ∃ t', next settings.checks t = .ok (none, t')) ∧
        ∀ items more, rest = items :: more → t.Clear settings.checks →
          ∃ made t', next settings.checks t = .ok (some made, t') ∧ BatchRewritten items made := by
  obtain ⟨hreader, hready⟩ := fromInputFile_ready hsound hnew
  obtain ⟨r, capture, copies, hr, hdrains, hitems, hcopies⟩ :=
    FileReader.replays_file noRewriter settings.args
      (settings.jitterRng (settings.seed + .ofNat index)) hvalid hopen hpanic
  obtain rfl := Outcome.ok.inj (hr.symm.trans hreader)
  have hfollows : Follows file.parallel copies.flatten s :=
    ⟨hitems, fun items hmem => hcopies.length_batch hmem, hready⟩
  refine ⟨capture, copies, hdrains, hcopies, fun given t hrun => ?_⟩
  obtain ⟨done, rest, hbatches, hgiven, hrest⟩ := hfollows.run hrun
  refine ⟨done, rest, hbatches, hgiven, ?_, ?_⟩
  · rintro rfl
    exact hrest.next_nil _
  · rintro items more rfl hclear
    obtain ⟨made, t', hcall, hmade, -⟩ := hrest.next_cons hclear
    exact ⟨made, t', hcall, hmade⟩

/-! ### Two captures of one packet -/

/-- The reader of a capture of raw IP packets, with what it has still to read. -/
def rawReader (source : List UInt8) : SniffedReader :=
  .pcap ⟨⟨0xA1B2C3D4, 2, 4, 0, 0, 0xFFFF, 101⟩, true, false, source⟩

/-- A record that ends inside its data. -/
def tornRecord : List UInt8 := [0, 0, 0, 2, 0, 0, 0, 0, 0, 0, 0, 5, 0, 0, 0, 5, 9]

/-- A reader of one packet and a torn record does not panic. -/
theorem rawReader_returns {source : List UInt8} {packet : PacketRecord}
    (h : (rawReader source).nextPacket = .ok (some packet, rawReader tornRecord)) (r : SniffedReader)
    (hr : Reaches SniffedReader.nextPacket (rawReader source) r) : r.nextPacket ≠ .panic := by
  have herror : (rawReader tornRecord).nextPacket = .err (.io, rawReader []) := rfl
  have hend : (rawReader []).nextPacket = .ok (none, rawReader []) := rfl
  have hstates : r = rawReader source ∨ r = rawReader tornRecord ∨ r = rawReader [] := by
    refine hr.invariant
      (fun r => r = rawReader source ∨ r = rawReader tornRecord ∨ r = rawReader []) ?_ (.inl rfl)
    rintro s s' (rfl | rfl | rfl) (⟨a, hcall⟩ | ⟨e, hcall⟩)
    · cases h.symm.trans hcall
      exact .inr (.inl rfl)
    · cases h.symm.trans hcall
    · cases herror.symm.trans hcall
    · cases herror.symm.trans hcall
      exact .inr (.inr rfl)
    · cases hend.symm.trans hcall
      exact .inr (.inr rfl)
    · cases hend.symm.trans hcall
  rcases hstates with rfl | rfl | rfl
  · simp [h]
  · simp [herror]
  · simp [hend]

/-- The file header of a capture of raw IP packets. -/
def rawHeader : List UInt8 :=
  [0xA1, 0xB2, 0xC3, 0xD4, 0, 2, 0, 4, 0, 0, 0, 0, 0, 0, 0, 0, 0, 0, 0xFF, 0xFF, 0, 0, 0, 101]

/-- A UDP datagram over IPv4 to 10.0.0.2. -/
def datagram (src : UInt8) (sums : List UInt8 × List UInt8) : List UInt8 :=
  [0x45, 0, 0, 32, 0, 0, 0, 0, 64, 17] ++ sums.1 ++ [10, 0, 0, src, 10, 0, 0, 2] ++
    [0, 80, 0, 81, 0, 12] ++ sums.2 ++ [1, 2, 3, 4]

/-- A capture of one datagram of 10.0.0.1, and a torn record. -/
def datagramFile : List UInt8 :=
  rawHeader ++ [0, 0, 0, 1, 0, 0, 0, 0, 0, 0, 0, 32, 0, 0, 0, 32] ++ datagram 1 ([0, 0], [1, 2]) ++
    tornRecord

/-- A capture of one packet over IPv6 that ends inside its routing header, and a torn
record. -/
def cutRouteFile : List UInt8 :=
  rawHeader ++ [0, 0, 0, 1, 0, 0, 0, 0, 0, 0, 0, 42, 0, 0, 0, 48] ++
    [0x60, 0, 0, 0, 0, 8, 43, 64] ++ beBytes 16 1 ++ beBytes 16 2 ++ [6, 0] ++
    tornRecord

/-- Every source is mapped to one address, and the file is replayed twice. -/
def mapped (target : IpAddr) : InputFile :=
  { (default : InputFile) with
    repeatField := some 2
    srcIpMapField := some [⟨none, .ip target, none, none⟩] }

/-- `fix_checksum` is on. -/
def fixing (checks : Bool) : Settings := ⟨⟨none, none⟩, 7, true, fun _ => zeroRng, checks⟩

/-- The capture of a datagram opens, and its reader does not panic. -/
theorem datagramFile_opens : SniffedReader.new datagramFile = .ok (rawReader (datagramFile.drop 24)) ∧
    ∀ r, Reaches SniffedReader.nextPacket (rawReader (datagramFile.drop 24)) r →
      r.nextPacket ≠ .panic :=
  ⟨rfl, rawReader_returns rfl⟩

/-- The datagram is replayed from 10.0.0.9, with its checksums set. -/
theorem replay_of_clear_datagram :
    ∃ (s : MapReader LeastRng) (runtime : MapRuntime LeastRng),
      fromInputFile (fixing true) 0 (mapped (.v4 0x0A000009)) datagramFile ∅ = some (s, runtime) ∧
      (∃ made t, Run true s [made] t ∧
        made.map (fun written => written.packet.data) = [datagram 9 ([0x66, 0xC3], [0xE7, 0x24])]) ∧
      ∃ capture copies,
        Drains SniffedReader.nextPacket (rawReader (datagramFile.drop 24)) capture ∧
        CopiesFile ⟨mapped (.v4 0x0A000009), capture, zeroRng, noRewriter⟩ copies ∧
        ∀ given t, Run true s given t → ∃ done rest, copies.flatten = done ++ rest ∧
          List.Forall₂ BatchRewritten done given ∧
          (rest = [] → ∃ t', next true t = .ok (none, t')) ∧
          ∀ items more, rest = items :: more → t.Clear true →
            ∃ made t', next true t = .ok (some made, t') ∧ BatchRewritten items made := by
  have hopens : (fromInputFile (fixing true) 0 (mapped (.v4 0x0A000009)) datagramFile
      (∅ : MapRuntime LeastRng)).isSome := by decide +kernel
  have hread : ((fromInputFile (fixing true) 0 (mapped (.v4 0x0A000009)) datagramFile
      (∅ : MapRuntime LeastRng)).bind fun r => (FileReader.next r.1.reader).toOption.map Prod.fst) =
      some (some [⟨.ofInt 1000000000, 32, datagram 1 ([0, 0], [1, 2]), .raw⟩]) := by decide +kernel
  have hmade : ((fromInputFile (fixing true) 0 (mapped (.v4 0x0A000009)) datagramFile
      (∅ : MapRuntime LeastRng)).bind fun r => (next true r.1).toOption.map fun r =>
        r.1.map fun made => made.map fun written => written.packet.data) =
      some (some [datagram 9 ([0x66, 0xC3], [0xE7, 0x24])]) := by decide +kernel
  obtain ⟨⟨s, runtime⟩, hnew⟩ := Option.isSome_iff_exists.1 hopens
  rw [hnew] at hread hmade
  have hready := (fromInputFile_ready MapRuntime.sound_empty hnew).2
  have hclear : s.Clear true := by
    intro items reader hnext
    rw [Option.bind_some, hnext] at hread
    obtain rfl := Option.some.inj (Option.some.inj hread)
    refine ⟨.of_short hready (by decide) (by decide) fun p hp l hl => ?_, fun _ _ => trivial⟩
    have hextensions : (parsed ⟨.ofInt 1000000000, 32, datagram 1 ([0, 0], [1, 2]), .raw⟩ :
        Outcome (Empty × MapRewriter LeastRng) _).toOption.map (fun p => extensions p.layers) =
        some [] := by decide +kernel
    rw [hp] at hextensions
    have hnone : extensions p.layers = [] := Option.some.inj hextensions
    rw [hnone] at hl
    cases hl
  obtain ⟨⟨made, t⟩, hcall, hbytes⟩ := Option.map_eq_some_iff.1 hmade
  obtain ⟨made, rfl, hbytes⟩ := Option.map_eq_some_iff.1 hbytes
  refine ⟨s, runtime, hnew, ⟨made, t, .call .start hclear (Outcome.toOption_eq_some.1 hcall),
    Option.some.inj hbytes⟩, ?_⟩
  exact replay_of_clear (fixing true) 0 (by decide) datagramFile_opens.1 datagramFile_opens.2
    MapRuntime.sound_empty hnew

/-- **A routing header that is cut before its fourth byte stops the replay**: with an address
mapped and the checksums to be set, the first call panics. -/
theorem cutRoute_panics :
    (mapped (.v6 3)).validate = .ok () ∧
      SniffedReader.new cutRouteFile = .ok (rawReader (cutRouteFile.drop 24)) ∧
      (∀ r, Reaches SniffedReader.nextPacket (rawReader (cutRouteFile.drop 24)) r →
        r.nextPacket ≠ .panic) ∧
      ∃ (s : MapReader LeastRng) (runtime : MapRuntime LeastRng),
        fromInputFile (fixing false) 0 (mapped (.v6 3)) cutRouteFile ∅ = some (s, runtime) ∧
        next false s = .panic := by
  have hstops : ((fromInputFile (fixing false) 0 (mapped (.v6 3)) cutRouteFile
      (∅ : MapRuntime LeastRng)).map fun r => match next false r.1 with
        | .panic => true
        | _ => false) = some true := by
    decide +kernel
  obtain ⟨⟨s, runtime⟩, hnew, hpanic⟩ := Option.map_eq_some_iff.1 hstops
  refine ⟨by decide, rfl, rawReader_returns rfl, s, runtime, hnew, ?_⟩
  dsimp only at hpanic
  split at hpanic
  · assumption
  · cases hpanic

end MapReader

end Mergecap
end Maja
