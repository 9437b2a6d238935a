/-
# Reordering loses and duplicates nothing

What `write_reordered` writes for a scanned file is the same row of records and
blocks in the promised order, and it decodes to the same packets.  For pcapng the
order is `reorder`, section by section; a pcap file is one section of packets.
`reorder_conserves` puts the two formats together.
-/

import Maja.Reordercap.ScanView

namespace Maja
namespace Reordercap

open Lib Capture Decoded

variable {ε : Type} {checks : Bool}

/-! ### Writing ranges -/

/-- Copying ranges, and ranges behind them. -/
theorem copyRanges_append {data as bs : List UInt8} {rs ts : List (ℕ × ℕ)}
    (hr : (copyRanges data rs : Outcome ε _) = .ok as)
    (ht : (copyRanges data ts : Outcome ε _) = .ok bs) :
    (copyRanges data (rs ++ ts) : Outcome ε _) = .ok (as ++ bs) := by
  induction rs generalizing as with
  | nil =>
    obtain rfl : [] = as := by simpa [copyRanges] using hr
    exact ht
  | cons r rs ih =>
    rw [copyRanges] at hr
    obtain ⟨bytes, hbytes, hr⟩ := Outcome.bind_eq_ok.1 hr
    obtain ⟨rest, hrest, hr⟩ := Outcome.bind_eq_ok.1 hr
    simp only [Outcome.pure_eq, Outcome.ok.injEq] at hr
    rw [List.cons_append, copyRanges, hbytes, Outcome.ok_bind, ih hrest, Outcome.ok_bind, ← hr,
      List.append_assoc]
    rfl

/-- The ranges of located records are copied to their bytes. -/
theorem copyRanges_located {α : Type} {raw : α → List UInt8} {data : List UInt8}
    {ls : List (ℕ × α)} (h : ∀ l ∈ ls,
      (Outcome.slice data l.1 (l.1 + (raw l.2).length) : Outcome ε _) = .ok (raw l.2)) :
    (copyRanges data (ls.map fun l => (l.1, (raw l.2).length)) : Outcome ε _) =
      .ok (rawBytes raw (ls.map Prod.snd)) := by
  induction ls with
  | nil => rfl
  | cons l ls ih =>
    rw [List.map_cons, copyRanges, h l (List.mem_cons_self ..), Outcome.ok_bind,
      ih fun m hm => h m (List.mem_cons_of_mem _ hm), Outcome.ok_bind]
    rfl

/-! ### One pcapng section -/

/-- The sort of a section's index. -/
def sortSection (s : SectionScan) : SectionScan :=
  { s with scan := { s.scan with index := sortByKey PacketIndex.timestamp s.scan.index } }

/-- The blocks of one kind, with their offsets and without. -/
theorem map_snd_filter_behindAt (start : ℕ) (ds : List Decoded) (p : Decoded → Bool) :
    ((behindAt start ds).filter (p ·.2)).map Prod.snd = (behind ds).filter p := by
  have hmap : (behindAt start ds).map Prod.snd = behind ds := map_snd_locate ..
  rw [← hmap, List.filter_map]
  rfl

/-- **A section is written in its new order.** -/
theorem copyRanges_section {front rest : List UInt8} {ds : List Decoded} {section_ : SectionScan}
    (h : SectionShown section_ (front.length, ds)) :
    (copyRanges (front ++ rawBytes Decoded.raw ds ++ rest) (sortSection section_).ranges :
      Outcome ε _) = .ok (rawBytes Decoded.raw (reorder ds)) := by
  obtain ⟨data, hdata⟩ : ∃ data, data = front ++ rawBytes Decoded.raw ds ++ rest := ⟨_, rfl⟩
  have hsplit : data = front ++ rawBytes Decoded.raw (prefixOf ds) ++
      (rawBytes Decoded.raw (behind ds) ++ rest) := by
    rw [hdata]
    conv_lhs => rw [← prefixOf_append_behind ds, rawBytes_append]
    simp only [List.append_assoc]
  have hsplit' : data = (front ++ rawBytes Decoded.raw (prefixOf ds)) ++
      rawBytes Decoded.raw (behind ds) ++ rest := by
    rw [hsplit]
    simp only [List.append_assoc]
  have hslice : ∀ l ∈ behindAt front.length ds,
      (Outcome.slice data l.1 (l.1 + l.2.raw.length) : Outcome ε _) = .ok l.2.raw := by
    intro l hl
    rw [behindAt, ← List.length_append] at hl
    rw [hsplit']
    exact slice_of_mem_locate Decoded.raw hl
  have hkind : ∀ p : Decoded → Bool,
      (copyRanges data (((behindAt front.length ds).filter (p ·.2)).map rangeOf) : Outcome ε _) =
        .ok (rawBytes Decoded.raw ((behind ds).filter p)) := by
    intro p
    rw [← map_snd_filter_behindAt front.length]
    exact copyRanges_located fun l hl => hslice l (List.mem_filter.1 hl).1
  have hbefore : (copyRanges data [section_.prefixRange] : Outcome ε _) =
      .ok (rawBytes Decoded.raw (prefixOf ds)) := by
    rw [h.prefixRange, copyRanges, hsplit, slice_rawBytes]
    simp [copyRanges]
  have hpackets : (copyRanges data ((sortSection section_).scan.index.map
      fun entry => (entry.offset, entry.recordLen)) : Outcome ε _) =
        .ok (rawBytes Decoded.raw (sortByKey timestamp (packets ds))) := by
    have hindex : (sortSection section_).scan.index = (sortByKey (fun l => l.2.timestamp)
        ((behindAt front.length ds).filter (·.2.isPacket))).map entryOf := by
      rw [sortSection, h.index]
      exact (map_sortByKey (fun _ => rfl) _).symm
    have hsorted : packets ds =
        ((behindAt front.length ds).filter (·.2.isPacket)).map Prod.snd :=
      (map_snd_filter_behindAt front.length ds isPacket).symm
    rw [hindex, hsorted, ← @map_sortByKey _ _ _ _ (fun l : ℕ × Decoded => l.2.timestamp) timestamp
      Prod.snd (fun _ => rfl), List.map_map]
    refine copyRanges_located fun l hl => hslice l ?_
    exact (List.mem_filter.1 ((sortByKey_perm _ _).mem_iff.1 hl)).1
  rw [← hdata]
  have hall := copyRanges_append (copyRanges_append (copyRanges_append hbefore
    (h.lateIdbs ▸ hkind isInterface)) hpackets) (h.suffix ▸ hkind isOther)
  rw [← rawBytes_append, ← rawBytes_append, ← rawBytes_append] at hall
  exact hall

/-- The same for all sections of a file. -/
theorem copyRanges_sections {front : List UInt8} {input : List (List Decoded)}
    {sections : List SectionScan} (h : List.Forall₂ SectionShown sections
      (locate (rawBytes Decoded.raw) front.length input)) :
    (copyRanges (front ++ rawBytes Decoded.raw input.flatten)
      ((sections.map sortSection).flatMap SectionScan.ranges) : Outcome ε _) =
        .ok (rawBytes Decoded.raw (input.map reorder).flatten) := by
  induction input generalizing front sections with
  | nil =>
    cases h
    rfl
  | cons ds input ih =>
    rw [locate_cons] at h
    cases h with
    | @cons section_ _ sections _ hhead htail =>
      rw [← List.length_append] at htail
      have hrest := ih htail
      rw [List.flatten_cons, rawBytes_append, List.map_cons, List.flatMap_cons, List.map_cons,
        List.flatten_cons, rawBytes_append]
      rw [List.append_assoc] at hrest
      refine copyRanges_append ?_ hrest
      rw [← List.append_assoc]
      exact copyRanges_section hhead

/-! ### Scanning the output -/

/-- In every section the packets come in non-decreasing order, from `latest` on. -/
def Calm : I64 → List Decoded → Prop
  | _, [] => True
  | latest, d :: ds =>
      if d.isHeader then Calm I64.MIN ds
      else if d.isPacket then d.packet.isSome ∧ latest ≤ d.timestamp ∧ Calm d.timestamp ds
      else d.isSimple = false ∧ Calm latest ds

/-- A push that is not misplaced. -/
theorem Scan.push_of_le {scan : Scan} {timestamp : I64} (h : scan.maxTimestamp ≤ timestamp)
    (offset len frame : ℕ) : (scan.push checks timestamp offset len frame : Outcome ε Scan) =
      .ok ⟨scan.index ++ [⟨timestamp, offset, len⟩], scan.misplaced, timestamp, frame⟩ := by
  simp [Scan.push, not_lt.2 h]

/-- Blocks in order are accepted. -/
theorem scan_of_calm {s : PcapngScan} {ls : List (ℕ × Decoded)}
    (h : Calm s.scan.maxTimestamp (ls.map Prod.snd)) : ∃ s', scanDecoded checks s ls = .ok s' := by
  induction ls generalizing s with
  | nil => exact ⟨s, rfl⟩
  | cons l ls ih =>
    obtain ⟨offset, raw, block, packet⟩ := l
    rw [List.map_cons, Calm] at h
    suffices hstep : ∃ t, visitDecoded checks s (offset, ⟨raw, block, packet⟩) = .ok t ∧
        Calm t.scan.maxTimestamp (ls.map Prod.snd) by
      obtain ⟨t, hvisit, hcalm⟩ := hstep
      obtain ⟨s', hs'⟩ := ih hcalm
      exact ⟨s', by rw [scanDecoded, hvisit, Outcome.ok_bind, hs']⟩
    cases block with
    | sectionHeader header =>
      have hcalm : Calm I64.MIN (ls.map Prod.snd) := by simpa [Decoded.isHeader] using h
      exact ⟨_, rfl, hcalm⟩
    | simplePacket header data =>
      simp [Decoded.isHeader, Decoded.isPacket, Decoded.isSimple] at h
    | interfaceDescription i =>
      refine ⟨_, rfl, ?_⟩
      have hcalm : Calm s.scan.maxTimestamp (ls.map Prod.snd) := by
        simpa [Decoded.isHeader, Decoded.isPacket, Decoded.isSimple] using h
      split_ifs <;> exact hcalm
    | raw type data =>
      refine ⟨_, rfl, ?_⟩
      have hcalm : Calm s.scan.maxTimestamp (ls.map Prod.snd) := by
        simpa [Decoded.isHeader, Decoded.isPacket, Decoded.isSimple] using h
      split_ifs <;> exact hcalm
    | enhancedPacket ep data =>
      simp only [Decoded.isHeader, Decoded.isPacket, Bool.false_eq_true, if_false, if_true] at h
      obtain ⟨hsome, hle, hcalm⟩ := h
      obtain ⟨⟨interface, timestamp⟩, rfl⟩ := Option.isSome_iff_exists.1 hsome
      have hle' : s.scan.maxTimestamp ≤ timestamp := hle
      refine ⟨{ s with
        prefixEnd := some (s.prefixEnd.getD offset)
        frame := s.frame + 1
        scan := ⟨s.scan.index ++ [⟨timestamp, offset, raw.length⟩], s.scan.misplaced, timestamp,
          s.frame + 1⟩ }, ?_, hcalm⟩
      simp only [visitDecoded, Scan.push_of_le hle', Outcome.ok_bind]
      rfl

/-- Blocks that are no header and no packet are passed over. -/
theorem calm_quiet {latest : I64} {ds es : List Decoded}
    (h : ∀ d ∈ ds, d.isHeader = false ∧ d.isPacket = false ∧ d.isSimple = false) :
    Calm latest (ds ++ es) ↔ Calm latest es := by
  induction ds with
  | nil => rfl
  | cons d ds ih =>
    obtain ⟨hheader, hpacket, hsimple⟩ := h d (List.mem_cons_self ..)
    rw [List.cons_append, Calm, if_neg (by simp [hheader]), if_neg (by simp [hpacket]),
      ih fun e he => h e (List.mem_cons_of_mem _ he)]
    exact and_iff_right hsimple

/-- Packets in order are followed by what is calm from any time on. -/
theorem calm_sorted {latest : I64} {ds es : List Decoded}
    (h : ∀ d ∈ ds, d.isPacket ∧ d.packet.isSome)
    (hsorted : ds.Pairwise fun d e => d.timestamp ≤ e.timestamp)
    (hlatest : ∀ d ∈ ds, latest ≤ d.timestamp) (hes : ∀ t, Calm t es) : Calm latest (ds ++ es) := by
  induction ds generalizing latest with
  | nil => exact hes latest
  | cons d ds ih =>
    obtain ⟨hpacket, hsome⟩ := h d (List.mem_cons_self ..)
    obtain ⟨hfirst, htail⟩ := List.pairwise_cons.1 hsorted
    have hheader : d.isHeader = false := by
      cases hh : d.isHeader with
      | false => rfl
      | true => rw [not_packet_of_header hh] at hpacket; cases hpacket
    rw [List.cons_append, Calm, if_neg (by simp [hheader]), if_pos hpacket]
    exact ⟨hsome, hlatest d (List.mem_cons_self ..),
      ih (fun e he => h e (List.mem_cons_of_mem _ he)) htail hfirst⟩

/-- A packet that was decoded has an interface and a timestamp. -/
theorem DecodesAt.packet_isSome {ctx : Context} {d : Decoded} (h : DecodesAt ctx d)
    (hpacket : d.isPacket) : d.packet.isSome := by
  obtain ⟨frame, -, -, -, hpacketOf⟩ := h
  unfold Decoded.isPacket at hpacket
  cases hb : d.block with
  | enhancedPacket ep data =>
    rw [hb, packetOf] at hpacketOf
    cases hi : ctx.interfaces[ep.interfaceId]? with
    | none => simp [hi] at hpacketOf
    | some interface =>
      rw [hi] at hpacketOf
      obtain ⟨timestamp, -, hsome⟩ := Outcome.bind_eq_ok.1 hpacketOf
      simp only [Outcome.pure_eq, Outcome.ok.injEq] at hsome
      simp [← hsome]
  | _ => simp [hb] at hpacket

/-- A block that is a packet was read as one. -/
theorem Reads.packet_isSome {ctx ctx' : Context} {ds : List Decoded} (h : Reads ctx ds ctx') :
    ∀ d ∈ ds, d.isPacket → d.packet.isSome := by
  induction h with
  | nil => simp
  | cons hd _ ih =>
    intro e he
    rcases List.mem_cons.1 he with rfl | hmem
    · exact hd.packet_isSome
    · exact ih e hmem

/-- A reordered section is calm. -/
theorem calm_reorder {latest : I64} {ds es : List Decoded} (h : IsSection ds)
    (hsome : ∀ d ∈ ds, d.isPacket → d.packet.isSome) (hes : ∀ t, Calm t es) :
    Calm latest (reorder ds ++ es) := by
  have hmem : ∀ {p : Decoded → Bool} {d : Decoded}, d ∈ (behind ds).filter p →
      d ∈ behind ds ∧ p d := fun hd => List.mem_filter.1 hd
  have hbehind := h.inSection_behind
  have hlate : ∀ d ∈ lateInterfaces ds,
      d.isHeader = false ∧ d.isPacket = false ∧ d.isSimple = false := by
    intro d hd
    obtain ⟨hd, hinterface⟩ := hmem hd
    refine ⟨(hbehind d hd).1, ?_, (hbehind d hd).2⟩
    cases hpacket : d.isPacket with
    | false => rfl
    | true => rw [not_interface_of_packet hpacket] at hinterface; cases hinterface
  have hothers : ∀ d ∈ others ds,
      d.isHeader = false ∧ d.isPacket = false ∧ d.isSimple = false := by
    intro d hd
    obtain ⟨hd, hother⟩ := hmem hd
    refine ⟨(hbehind d hd).1, ?_, (hbehind d hd).2⟩
    unfold Decoded.isOther at hother
    unfold Decoded.isPacket
    cases hb : d.block <;> simp [hb] at hother ⊢
  have hpackets : ∀ d ∈ sortByKey timestamp (packets ds), d.isPacket ∧ d.packet.isSome := by
    intro d hd
    obtain ⟨hd, hpacket⟩ := hmem ((sortByKey_perm _ _).mem_iff.1 hd)
    refine ⟨hpacket, hsome d ?_ hpacket⟩
    rw [← prefixOf_append_behind ds]
    exact List.mem_append_right _ hd
  obtain ⟨header, rest, rfl, hheader, hrest⟩ := h
  have hbefore : prefixOf (header :: rest) = header :: prefixOf rest := by
    rw [prefixOf, List.takeWhile_cons_of_pos (by simp [not_packet_of_header hheader])]
    rfl
  have hquiet : ∀ d ∈ prefixOf rest,
      d.isHeader = false ∧ d.isPacket = false ∧ d.isSimple = false := by
    intro d hd
    have hd' := (List.takeWhile_prefix _).mem hd
    refine ⟨(hrest d hd').1, ?_, (hrest d hd').2⟩
    simpa using List.all_eq_true.1 List.all_takeWhile d hd
  rw [reorder, hbefore, List.cons_append, List.cons_append, List.cons_append, List.cons_append,
    Calm, if_pos hheader, List.append_assoc, List.append_assoc, List.append_assoc,
    calm_quiet hquiet, calm_quiet hlate]
  refine calm_sorted hpackets (stablySorted_sortByKey timestamp _).sorted
    (fun d _ => bot_le) fun t => ?_
  exact (calm_quiet hothers).2 (hes t)

/-- The reordered sections of a file are calm. -/
theorem calm_reorder_all {latest : I64} {input : List (List Decoded)}
    (h : ∀ ds ∈ input, IsSection ds)
    (hsome : ∀ d ∈ input.flatten, d.isPacket → d.packet.isSome) :
    Calm latest (input.map reorder).flatten := by
  induction input generalizing latest with
  | nil => trivial
  | cons ds input ih =>
    rw [List.map_cons, List.flatten_cons]
    refine calm_reorder (h ds (List.mem_cons_self ..)) (fun d hd => hsome d ?_) fun t => ?_
    · exact List.mem_append_left _ hd
    · exact ih (fun es hes => h es (List.mem_cons_of_mem _ hes))
        fun d hd => hsome d (List.mem_append_right _ hd)

/-- **The output of a pcapng file is accepted again.** -/
theorem scanPcapng_of_calm {ds : List Decoded} {ctx' : Context} (h : Reads start ds ctx')
    (hcalm : Calm I64.MIN ds) :
    ∃ sections, scanPcapng checks (rawBytes Decoded.raw ds) = .ok sections := by
  have hitems : Items nextDecoded (PcapngSliceReader.new (rawBytes Decoded.raw ds))
      (locate Decoded.raw 0 ds) := items_of_reads h rfl
  have hlen : (locate Decoded.raw 0 ds).length < (rawBytes Decoded.raw ds).length + 1 := by
    have hlength := congrArg List.length (map_snd_locate Decoded.raw 0 ds)
    rw [List.length_map] at hlength
    have := h.length_le
    omega
  have hcalm' : Calm PcapngScan.new.scan.maxTimestamp
      ((locate Decoded.raw 0 ds).map Prod.snd) := by
    rw [map_snd_locate]
    exact hcalm
  obtain ⟨s, hs⟩ := scan_of_calm hcalm'
  rw [scanPcapng, scanPcapngLoop_eq hitems hlen, hs]
  exact ⟨_, rfl⟩

/-! ### pcap -/

/-- A record of a pcap file: its bytes and the packet in it. -/
abbrev PcapRecord : Type := List UInt8 × PacketRecord

/-- A record as the reader hands it out. -/
def toLocated (l : ℕ × PcapRecord) : LocatedPacketRecord := ⟨l.1, l.2.1, l.2.2⟩

/-- The index entry of a record. -/
def pcapEntryOf (l : ℕ × PcapRecord) : PacketIndex := ⟨l.2.2.timestamp, l.1, l.2.1.length⟩

/-- The records of a file with the given header. -/
def AllHold (header : PcapHeader) (records : List PcapRecord) : Prop :=
  ∀ r ∈ records, PcapSliceReader.Holds header r.1 r.2

/-- A reader hands out the records that its bytes are. -/
theorem pcap_items {records : List PcapRecord} {s : PcapSliceReader}
    (h : AllHold s.header records) (hbytes : s.remaining = rawBytes Prod.fst records) :
    Items PcapSliceReader.nextPacketWithOffset s
      ((locate Prod.fst s.pos records).map toLocated) := by
  induction records generalizing s with
  | nil => exact .done (PcapSliceReader.nextPacketWithOffset_nil hbytes)
  | cons r records ih =>
    rw [rawBytes_cons] at hbytes
    obtain ⟨s', hcall, hrest, hheader, -, hpos⟩ := (h r (List.mem_cons_self ..)).next hbytes
    have htail : AllHold s'.header records := by
      rw [hheader]
      exact fun q hq => h q (List.mem_cons_of_mem _ hq)
    rw [locate_cons, ← hpos, List.map_cons]
    exact .next hcall (ih htail hrest)

/-- What a reader hands out are records that its bytes are. -/
theorem records_of_items {s : PcapSliceReader} {located : List LocatedPacketRecord}
    (h : Items PcapSliceReader.nextPacketWithOffset s located) :
    ∃ records, located = (locate Prod.fst s.pos records).map toLocated ∧
      AllHold s.header records ∧ s.remaining = rawBytes Prod.fst records := by
  induction h with
  | done h => exact ⟨[], rfl, by simp [AllHold], (PcapSliceReader.nextPacketWithOffset_none h).1⟩
  | @next s s' l ls h _ ih =>
    obtain ⟨hoffset, hholds, hsplit, hheader, -, hpos⟩ :=
      PcapSliceReader.nextPacketWithOffset_some h
    obtain ⟨records, rfl, hall, hbytes⟩ := ih
    refine ⟨(l.raw, l.packet) :: records, ?_, ?_, ?_⟩
    · rw [locate_cons, List.map_cons, ← hpos, toLocated, ← hoffset]
    · intro r hr
      rcases List.mem_cons.1 hr with rfl | hmem
      · exact hholds
      · rw [← hheader]
        exact hall r hmem
    · rw [rawBytes_cons, ← hbytes, hsplit]

/-- The scan of located records. -/
def pushAll (checks : Bool) : Scan → List LocatedPacketRecord → Outcome ScanError Scan
  | scan, [] => .ok scan
  | scan, l :: ls => do
      let scan ← scan.push checks l.packet.timestamp l.offset l.raw.length (scan.index.length + 1)
      pushAll checks scan ls

/-- The scan of a pcap file pushes the packets that its reader returns. -/
theorem scanPcapLoop_eq {reader : PcapSliceReader} {located : List LocatedPacketRecord}
    (h : Items PcapSliceReader.nextPacketWithOffset reader located) {fuel : ℕ}
    (hfuel : located.length < fuel) (scan : Scan) :
    scanPcapLoop checks fuel reader scan = pushAll checks scan located := by
  induction h generalizing fuel scan with
  | done h =>
    obtain ⟨fuel, rfl⟩ := Nat.exists_eq_succ_of_ne_zero (Nat.ne_of_gt hfuel)
    simp [scanPcapLoop, h, Outcome.mapErr, pushAll]
  | @next r r' l ls h _ ih =>
    obtain ⟨fuel, rfl⟩ := Nat.exists_eq_succ_of_ne_zero (show fuel ≠ 0 by omega)
    have hrest := ih (show ls.length < fuel by simpa using hfuel)
    simp only [scanPcapLoop, h, Outcome.mapErr, Outcome.ok_bind, pushAll, hrest]

/-- A scan that returns has read the file up to its end. -/
theorem exists_items_of_scanPcap {fuel : ℕ} {reader : PcapSliceReader} {scan scan' : Scan}
    (h : scanPcapLoop checks fuel reader scan = .ok scan') :
    ∃ located, Items PcapSliceReader.nextPacketWithOffset reader located ∧
      located.length < fuel := by
  induction fuel generalizing reader scan with
  | zero => simp [scanPcapLoop] at h
  | succ fuel ih =>
    rcases hcall : PcapSliceReader.nextPacketWithOffset reader with ⟨_ | l, t⟩ | e | _ | _
    · exact ⟨[], .done hcall, Nat.succ_pos _⟩
    · simp only [scanPcapLoop, hcall, Outcome.mapErr, Outcome.ok_bind] at h
      obtain ⟨u, -, hloop⟩ := Outcome.bind_eq_ok.1 h
      obtain ⟨ls, hls, hlen⟩ := ih hloop
      exact ⟨l :: ls, .next hcall hls, Nat.succ_lt_succ hlen⟩
    all_goals simp [scanPcapLoop, hcall, Outcome.mapErr] at h

/-- The index of an accepted file lists its records. -/
theorem pushAll_index {scan scan' : Scan} {ls : List LocatedPacketRecord}
    (h : pushAll checks scan ls = .ok scan') :
    scan'.index = scan.index ++ ls.map fun l => ⟨l.packet.timestamp, l.offset, l.raw.length⟩ := by
  induction ls generalizing scan with
  | nil =>
    obtain rfl : scan = scan' := by simpa [pushAll] using h
    simp
  | cons l ls ih =>
    obtain ⟨mid, hpush, hrest⟩ := Outcome.bind_eq_ok.1 h
    rw [ih hrest, Scan.push_index hpush, List.map_cons, List.append_assoc]
    rfl

/-- Records in order are accepted. -/
theorem pushAll_of_sorted {scan : Scan} {ls : List LocatedPacketRecord}
    (hsorted : ls.Pairwise fun l m => l.packet.timestamp ≤ m.packet.timestamp)
    (hlatest : ∀ l ∈ ls, scan.maxTimestamp ≤ l.packet.timestamp) :
    ∃ scan', pushAll checks scan ls = .ok scan' := by
  induction ls generalizing scan with
  | nil => exact ⟨scan, rfl⟩
  | cons l ls ih =>
    obtain ⟨hfirst, htail⟩ := List.pairwise_cons.1 hsorted
    rw [pushAll, Scan.push_of_le (hlatest l (List.mem_cons_self ..)), Outcome.ok_bind]
    exact ih htail hfirst

/-- A record is never empty. -/
theorem AllHold.length_le {header : PcapHeader} {records : List PcapRecord}
    (h : AllHold header records) : records.length ≤ (rawBytes Prod.fst records).length := by
  induction records with
  | nil => simp
  | cons r records ih =>
    have hlen := (h r (List.mem_cons_self ..)).len
    have hpos : 16 ≤ r.1.length := hlen
    have hrest := ih fun q hq => h q (List.mem_cons_of_mem _ hq)
    rw [rawBytes_cons, List.length_append, List.length_cons]
    omega

/-- Opening a file reads its header. -/
theorem pcap_new {head rest : List UInt8} {header : PcapHeader} (hlen : head.length = PcapHeader.LEN)
    (h : PcapHeader.parse head = .ok header) :
    ∃ reader, PcapSliceReader.new (head ++ rest) = .ok reader ∧ reader.header = header ∧
      reader.remaining = rest ∧ reader.pos = PcapHeader.LEN := by
  have hle : PcapHeader.LEN ≤ (head ++ rest).length := by
    rw [List.length_append]
    omega
  refine ⟨⟨header, head ++ rest, PcapHeader.LEN, hle⟩, ?_, rfl, ?_, rfl⟩
  · rw [PcapSliceReader.new, PcapHeader.parse_append hlen.ge, h, Outcome.ok_bind, dif_pos hle]
    rfl
  · show (head ++ rest).drop PcapHeader.LEN = rest
    rw [← hlen, List.drop_left]

/-- What an opened file is made of. -/
theorem pcap_of_new {data : List UInt8} {reader : PcapSliceReader}
    (h : PcapSliceReader.new data = .ok reader) :
    PcapHeader.LEN ≤ data.length ∧ PcapHeader.parse (data.take PcapHeader.LEN) = .ok reader.header ∧
      reader.remaining = data.drop PcapHeader.LEN ∧ reader.pos = PcapHeader.LEN := by
  obtain ⟨header, hparse, hreader⟩ := Outcome.bind_eq_ok.1 h
  split_ifs at hreader with hle
  · simp only [Outcome.pure_eq, Outcome.ok.injEq] at hreader
    subst hreader
    refine ⟨hle, ?_, rfl, rfl⟩
    rw [← List.take_append_drop PcapHeader.LEN data, PcapHeader.parse_append
      (by rw [List.length_take]; omega)] at hparse
    exact hparse

/-- **What an accepted pcap file is**: a header and a row of records, listed by the
index. -/
theorem records_of_scan {data : List UInt8} {sections : List SectionScan}
    (h : scanPcap checks data = .ok sections) :
    ∃ head header records scan, head.length = PcapHeader.LEN ∧
      PcapHeader.parse head = .ok header ∧ AllHold header records ∧
        data = head ++ rawBytes Prod.fst records ∧ sections = [⟨(0, PcapHeader.LEN), [], scan, []⟩] ∧
          scan.index = (locate Prod.fst PcapHeader.LEN records).map pcapEntryOf := by
  obtain ⟨reader, hreader, h⟩ := Outcome.bind_eq_ok.1 h
  obtain ⟨scan, hloop, hsections⟩ := Outcome.bind_eq_ok.1 h
  have hnew : PcapSliceReader.new data = .ok reader := by
    cases hcall : PcapSliceReader.new data <;> simp [hcall, Outcome.mapErr] at hreader
    rw [hreader]
  obtain ⟨hle, hparse, hremaining, hpos⟩ := pcap_of_new hnew
  obtain ⟨located, hitems, hlen⟩ := exists_items_of_scanPcap hloop
  rw [scanPcapLoop_eq hitems hlen] at hloop
  obtain ⟨records, rfl, hall, hbytes⟩ := records_of_items hitems
  refine ⟨data.take PcapHeader.LEN, reader.header, records, scan, ?_, hparse, hall, ?_, ?_, ?_⟩
  · rw [List.length_take]
    omega
  · rw [← hbytes, hremaining, List.take_append_drop]
  · simpa using hsections.symm
  · rw [pushAll_index hloop, hpos, List.map_map]
    rfl

/-! ### The two formats -/

/-- The `match format` of `main`. -/
def scan (checks : Bool) (format : CaptureFormat) (data : List UInt8) :
    Outcome ScanError (List SectionScan) :=
  match format with
  | .pcap => scanPcap checks data
  | .pcapng => scanPcapng checks data

/-- What the reader decodes a pcap file to: the header with the interface, and the
records. -/
def PcapDecodes (data : List UInt8) (header : PcapHeader) (records : List PcapRecord) : Prop :=
  ∃ reader located, PcapSliceReader.new data = .ok reader ∧ reader.header = header ∧
    Items PcapSliceReader.nextPacketWithOffset reader located ∧
      located.map (fun l => (l.raw, l.packet)) = records

/-- What the reader decodes a pcapng file to. -/
def PcapngDecodes (data : List UInt8) (blocks : List Decoded) : Prop :=
  ∃ located, Items nextDecoded (PcapngSliceReader.new data) located ∧
    located.map Prod.snd = blocks

/-- The output of a pcap file: the same header, and the records by time, the records
of one time in their old order. -/
structure PcapReordered (data out : List UInt8) (header : PcapHeader)
    (input output : List PcapRecord) : Prop where
  decodes : PcapDecodes data header input
  decodes' : PcapDecodes out header output
  bytes : data = data.take PcapHeader.LEN ++ rawBytes Prod.fst input
  bytes' : out = data.take PcapHeader.LEN ++ rawBytes Prod.fst output
  sorted : StablySorted (fun r => r.2.timestamp) input output

/-- The output of a pcapng file: the same sections, and each in its new order. -/
structure PcapngReordered (data out : List UInt8) (input output : List (List Decoded)) :
    Prop where
  decodes : PcapngDecodes data input.flatten
  decodes' : PcapngDecodes out output.flatten
  bytes : data = rawBytes Decoded.raw input.flatten
  bytes' : out = rawBytes Decoded.raw output.flatten
  isSection : ∀ ds ∈ input, IsSection ds
  sections : List.Forall₂ SectionReordered input output

/-- The output is the input rearranged, and decodes to the same. -/
def Reordered (format : CaptureFormat) (data out : List UInt8) : Prop :=
  match format with
  | .pcap => ∃ header input output, PcapReordered data out header input output
  | .pcapng => ∃ input output, PcapngReordered data out input output

/-- A header and its records make up a pcap file. -/
theorem pcapDecodes {head : List UInt8} {header : PcapHeader} {records : List PcapRecord}
    (hlen : head.length = PcapHeader.LEN) (hparse : PcapHeader.parse head = .ok header)
    (hall : AllHold header records) :
    PcapDecodes (head ++ rawBytes Prod.fst records) header records := by
  obtain ⟨reader, hnew, hheader, hremaining, -⟩ :=
    @pcap_new head (rawBytes Prod.fst records) header hlen hparse
  refine ⟨reader, _, hnew, hheader, pcap_items (hheader ▸ hall) hremaining, ?_⟩
  rw [List.map_map]
  exact map_snd_locate ..

/-- What is written for a pcap file whose index lists its records. -/
theorem writeReordered_pcap {head : List UInt8} {records : List PcapRecord} {scan : Scan}
    (hlen : head.length = PcapHeader.LEN)
    (hindex : scan.index = (locate Prod.fst PcapHeader.LEN records).map pcapEntryOf) :
    (writeReordered (head ++ rawBytes Prod.fst records)
      (sortSections [⟨(0, PcapHeader.LEN), [], scan, []⟩]) : Outcome ε _) =
        .ok (head ++ rawBytes Prod.fst (sortByKey (fun r : PcapRecord => r.2.timestamp) records)) := by
  obtain ⟨data, hdata⟩ : ∃ data, data = head ++ rawBytes Prod.fst records := ⟨_, rfl⟩
  have hentries : sortByKey PacketIndex.timestamp scan.index =
      (sortByKey (fun l => l.2.2.timestamp) (locate Prod.fst head.length records)).map
        pcapEntryOf := by
    rw [hindex, hlen]
    exact (map_sortByKey (fun _ => rfl) _).symm
  have hhead : (copyRanges data [(0, PcapHeader.LEN)] : Outcome ε _) = .ok head := by
    rw [copyRanges, Nat.zero_add, ← hlen, Outcome.slice_eq_ok (Nat.zero_le _) (by simp [hdata]),
      hdata]
    simp [copyRanges]
  have hrecords : (copyRanges data ((sortByKey PacketIndex.timestamp scan.index).map
      fun entry => (entry.offset, entry.recordLen)) : Outcome ε _) =
        .ok (rawBytes Prod.fst (sortByKey (fun r : PcapRecord => r.2.timestamp) records)) := by
    have hmap : sortByKey (fun r : PcapRecord => r.2.timestamp) records =
        (sortByKey (fun l => l.2.2.timestamp) (locate Prod.fst head.length records)).map
          Prod.snd := by
      rw [@map_sortByKey _ _ _ _ (fun l : ℕ × PcapRecord => l.2.2.timestamp)
        (fun r : PcapRecord => r.2.timestamp) Prod.snd (fun _ => rfl), map_snd_locate]
    rw [hentries, hmap, List.map_map]
    refine copyRanges_located fun l hl => ?_
    rw [hdata, ← List.append_nil (head ++ rawBytes Prod.fst records)]
    exact slice_of_mem_locate Prod.fst ((sortByKey_perm _ _).mem_iff.1 hl)
  have hall := copyRanges_append hhead hrecords
  rw [← hdata, writeReordered, sortSections, List.map_singleton, List.flatMap_singleton]
  simpa [SectionScan.ranges] using hall

/-- **A pcap file** that is accepted is written in order, and accepted again. -/
theorem reorder_pcap {data : List UInt8} {sections : List SectionScan}
    (h : scanPcap checks data = .ok sections) :
    ∃ out, (writeReordered data (sortSections sections) : Outcome ε _) = .ok out ∧
      Reordered .pcap data out ∧ ∃ rescanned, scanPcap checks out = .ok rescanned := by
  obtain ⟨head, header, records, scan, hlen, hparse, hall, hdata, rfl, hindex⟩ := records_of_scan h
  obtain ⟨sorted, hsorted⟩ : ∃ sorted, sorted = sortByKey (fun r : PcapRecord => r.2.timestamp)
    records := ⟨_, rfl⟩
  have hperm : sorted.Perm records := hsorted ▸ sortByKey_perm ..
  have hall' : AllHold header sorted := fun r hr => hall r (hperm.mem_iff.1 hr)
  have hstable : StablySorted (fun r : PcapRecord => r.2.timestamp) records sorted :=
    hsorted ▸ stablySorted_sortByKey ..
  have htake : data.take PcapHeader.LEN = head := by rw [hdata, ← hlen, List.take_left]
  refine ⟨head ++ rawBytes Prod.fst sorted, ?_, ⟨header, records, sorted, ?_⟩, ?_⟩
  · rw [hdata, hsorted]
    exact writeReordered_pcap hlen hindex
  · exact ⟨hdata ▸ pcapDecodes hlen hparse hall, pcapDecodes hlen hparse hall', by rw [htake, hdata],
      by rw [htake], hstable⟩
  · obtain ⟨reader, hnew, hheader, hremaining, hpos⟩ :=
      @pcap_new head (rawBytes Prod.fst sorted) header hlen hparse
    have hitems := pcap_items (hheader ▸ hall') hremaining
    have hlength : ((locate Prod.fst reader.pos sorted).map toLocated).length <
        (head ++ rawBytes Prod.fst sorted).length + 1 := by
      have hcount := congrArg List.length (map_snd_locate Prod.fst reader.pos sorted)
      rw [List.length_map] at hcount
      rw [List.length_map, List.length_append]
      have := hall'.length_le
      omega
    have hinOrder : ((locate Prod.fst reader.pos sorted).map toLocated).Pairwise
        fun l m => l.packet.timestamp ≤ m.packet.timestamp := by
      have hpairs := hstable.sorted
      rw [← map_snd_locate Prod.fst reader.pos sorted] at hpairs
      rw [List.pairwise_map] at hpairs ⊢
      exact hpairs
    obtain ⟨rescanned, hrescan⟩ := @pushAll_of_sorted checks Scan.new _ hinOrder fun l _ => bot_le
    rw [scanPcap, hnew]
    simp only [Outcome.mapErr, Outcome.ok_bind]
    rw [scanPcapLoop_eq hitems hlength, hrescan]
    exact ⟨_, rfl⟩

/-- **A pcapng file** that is accepted is written section by section in the new
order, and accepted again. -/
theorem reorder_pcapng {data : List UInt8} {sections : List SectionScan}
    (h : scanPcapng checks data = .ok sections) :
    ∃ out, (writeReordered data (sortSections sections) : Outcome ε _) = .ok out ∧
      Reordered .pcapng data out ∧ ∃ rescanned, scanPcapng checks out = .ok rescanned := by
  obtain ⟨input, ctx', hreads, hdata, hsections, hshown⟩ := sections_of_scan h
  have hreads' := reads_reorder_all hsections hreads
  have hdecodes : ∀ {ds : List Decoded}, Reads start ds ctx' →
      PcapngDecodes (rawBytes Decoded.raw ds) ds := by
    intro ds hds
    exact ⟨_, @items_of_reads _ _ (PcapngSliceReader.new (rawBytes Decoded.raw ds)) hds rfl,
      map_snd_locate ..⟩
  refine ⟨rawBytes Decoded.raw (input.map reorder).flatten, ?_,
    ⟨input, input.map reorder, hdata ▸ hdecodes hreads, hdecodes hreads', hdata, rfl, hsections, ?_⟩,
    scanPcapng_of_calm hreads' ?_⟩
  · have hcopy := @copyRanges_sections ε [] input sections hshown
    rw [List.nil_append, ← hdata] at hcopy
    exact hcopy
  · rw [List.forall₂_map_right_iff, List.forall₂_same]
    exact fun ds hds => sectionReordered (hsections ds hds)
  · exact calm_reorder_all hsections hreads.packet_isSome

/-- **Reordering loses and duplicates nothing.**  For every capture that the scan
accepts, the output is written, it is the input rearranged as promised, it decodes
to the same packets, and the scan accepts it. -/
theorem reorder_conserves (checks : Bool) (format : CaptureFormat) (data : List UInt8)
    (sections : List SectionScan) (h : scan checks format data = .ok sections) :
    ∃ out, (writeReordered data (sortSections sections) : Outcome ScanError _) = .ok out ∧
      Reordered format data out ∧ ∃ rescanned, scan checks format out = .ok rescanned := by
  cases format with
  | pcap => exact reorder_pcap h
  | pcapng => exact reorder_pcapng h

/-- A pcapng file of a section header, an interface and two packets, the second one
earlier than the first. -/
def twoPackets : List UInt8 :=
  [0x0A, 0x0D, 0x0D, 0x0A, 28, 0, 0, 0, 0x4D, 0x3C, 0x2B, 0x1A, 1, 0, 0, 0,
    255, 255, 255, 255, 255, 255, 255, 255, 28, 0, 0, 0,
    1, 0, 0, 0, 20, 0, 0, 0, 1, 0, 0, 0, 0, 4, 0, 0, 20, 0, 0, 0,
    6, 0, 0, 0, 32, 0, 0, 0, 0, 0, 0, 0, 0, 0, 0, 0, 9, 0, 0, 0, 0, 0, 0, 0, 0, 0, 0, 0,
    32, 0, 0, 0,
    6, 0, 0, 0, 32, 0, 0, 0, 0, 0, 0, 0, 0, 0, 0, 0, 5, 0, 0, 0, 0, 0, 0, 0, 0, 0, 0, 0,
    32, 0, 0, 0]

/-- The two packets are written by time. -/
theorem reorder_conserves_twoPackets :
    ∃ out, (writeReordered twoPackets (sortSections [⟨(0, 48), [],
        ⟨[⟨I64.ofInt 9000, 48, 32⟩, ⟨I64.ofInt 5000, 80, 32⟩],
          [⟨2, I64.ofInt 5000, 1, I64.ofInt 4000⟩], I64.ofInt 9000, 1⟩, []⟩]) :
        Outcome ScanError _) = .ok out ∧
      Reordered .pcapng twoPackets out ∧ ∃ rescanned, scan true .pcapng out = .ok rescanned :=
  reorder_conserves true .pcapng twoPackets _ (by decide +kernel)

end Reordercap
end Maja
