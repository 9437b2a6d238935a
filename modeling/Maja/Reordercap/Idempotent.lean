/-
# Reordering twice

The order check of a scan is exact: a packet is misplaced when an earlier one has a
later timestamp, so none is exactly when every section is in order
(`Scan.OrderKnown`).

A section that was reordered falls into the same parts again, with the late
interface descriptions among the blocks in front, and its packets are sorted
already (`reorder_reorder`).  So the output is in order, and reordering it writes it
once more (`reorder_idempotent`).
-/

import Maja.Capture.Sniffed
import Maja.Reordercap.Reorder

namespace Maja
namespace Reordercap

open Lib Capture Decoded

variable {checks : Bool}

/-! ### The order check -/

/-- What a scan knows of the order of the packets it has seen. -/
structure Scan.OrderKnown (scan : Scan) : Prop where
  le_max : ∀ entry ∈ scan.index, entry.timestamp ≤ scan.maxTimestamp
  max_mem : scan.maxTimestamp = I64.MIN ∨ ∃ entry ∈ scan.index, entry.timestamp = scan.maxTimestamp
  misplaced : scan.misplaced = [] ↔
    scan.index.Pairwise fun a b => a.timestamp ≤ b.timestamp

/-- A new scan knows the order of nothing. -/
theorem Scan.orderKnown_new : Scan.new.OrderKnown := by
  refine ⟨?_, .inl rfl, ?_⟩
  · intro entry hentry
    cases hentry
  · exact iff_of_true rfl .nil

/-- **A packet** keeps the order known: it is misplaced exactly when one of those
before it is later. -/
theorem Scan.OrderKnown.push {ε : Type} {scan scan' : Scan} {timestamp : I64}
    {offset len frame : ℕ} (h : scan.OrderKnown)
    (hpush : (scan.push checks timestamp offset len frame : Outcome ε Scan) = .ok scan') :
    scan'.OrderKnown := by
  have hpairwise : ∀ {index : List PacketIndex} {entry : PacketIndex},
      (index ++ [entry]).Pairwise (fun a b => a.timestamp ≤ b.timestamp) ↔
        index.Pairwise (fun a b => a.timestamp ≤ b.timestamp) ∧
          ∀ e ∈ index, e.timestamp ≤ entry.timestamp := by
    intro index entry
    simp [List.pairwise_append]
  unfold Scan.push at hpush
  split_ifs at hpush with hlt
  · obtain ⟨backward, -, hpush⟩ := Outcome.bind_eq_ok.1 hpush
    cases hpush
    refine ⟨?_, ?_, ?_⟩
    · intro entry hentry
      rcases List.mem_append.1 hentry with hmem | hmem
      · exact h.le_max entry hmem
      · rw [List.mem_singleton.1 hmem]
        exact hlt.le
    · refine h.max_mem.imp_right ?_
      rintro ⟨entry, hmem, hmax⟩
      exact ⟨entry, List.mem_append_left _ hmem, hmax⟩
    · refine iff_of_false (by simp) fun hsorted => ?_
      obtain ⟨-, hall⟩ := hpairwise.1 hsorted
      rcases h.max_mem with hmin | ⟨entry, hmem, hmax⟩
      · exact absurd (hmin ▸ hlt) (not_lt.2 bot_le)
      · exact absurd hlt (not_lt.2 (hmax ▸ hall entry hmem))
  · have hle : scan.maxTimestamp ≤ timestamp := not_lt.1 hlt
    cases hpush
    refine ⟨?_, .inr ⟨_, List.mem_append_right _ (List.mem_singleton_self _), rfl⟩, ?_⟩
    · intro entry hentry
      rcases List.mem_append.1 hentry with hmem | hmem
      · exact (h.le_max entry hmem).trans hle
      · rw [List.mem_singleton.1 hmem]
    · rw [hpairwise, h.misplaced]
      exact (and_iff_left fun entry hmem => (h.le_max entry hmem).trans hle).symm

/-- The order is known of every packet of a pcap file. -/
theorem scanPcapLoop_orderKnown {fuel : ℕ} {reader : PcapSliceReader} {scan scan' : Scan}
    (h : scan.OrderKnown) (hscan : scanPcapLoop checks fuel reader scan = .ok scan') :
    scan'.OrderKnown := by
  induction fuel generalizing reader scan with
  | zero => cases hscan
  | succ fuel ih =>
    rw [scanPcapLoop] at hscan
    obtain ⟨⟨located, reader'⟩, -, hscan⟩ := Outcome.bind_eq_ok.1 hscan
    cases located with
    | none =>
      cases hscan
      exact h
    | some located =>
      obtain ⟨scan₁, hpush, hscan⟩ := Outcome.bind_eq_ok.1 hscan
      exact ih (h.push hpush) hscan

/-- The order is known in the sections that are closed, and in the open one. -/
structure PcapngScan.OrderKnown (s : PcapngScan) : Prop where
  sections : ∀ section_ ∈ s.sections, section_.scan.OrderKnown
  scan : s.scan.OrderKnown

/-- A block keeps it so. -/
theorem PcapngScan.OrderKnown.visit {interfaces : List InterfaceDescription}
    {record : PcapngBlockRecord} {s s' : PcapngScan} (h : s.OrderKnown)
    (hvisit : s.visit checks interfaces record = .ok s') : s'.OrderKnown := by
  unfold PcapngScan.visit at hvisit
  split at hvisit
  · cases hvisit
    split_ifs
    · refine ⟨?_, Scan.orderKnown_new⟩
      intro section_ hmem
      rcases List.mem_append.1 hmem with hmem | hmem
      · exact h.sections section_ hmem
      · rw [List.mem_singleton.1 hmem]
        exact h.scan
    · exact ⟨h.sections, Scan.orderKnown_new⟩
  · cases hvisit
    split_ifs <;> exact ⟨h.sections, h.scan⟩
  · cases hvisit
  · split at hvisit
    · cases hvisit
    · obtain ⟨timestamp, -, hvisit⟩ := Outcome.bind_eq_ok.1 hvisit
      obtain ⟨scan, hpush, hvisit⟩ := Outcome.bind_eq_ok.1 hvisit
      cases hvisit
      exact ⟨h.sections, h.scan.push hpush⟩
  · cases hvisit
    split_ifs <;> exact ⟨h.sections, h.scan⟩

/-- And so do all blocks. -/
theorem scanPcapngLoop_orderKnown {fuel : ℕ} {reader : PcapngSliceReader} {s s' : PcapngScan}
    (h : s.OrderKnown) (hscan : scanPcapngLoop checks fuel reader s = .ok s') : s'.OrderKnown := by
  induction fuel generalizing reader s with
  | zero => cases hscan
  | succ fuel ih =>
    rw [scanPcapngLoop] at hscan
    obtain ⟨⟨record, reader'⟩, -, hscan⟩ := Outcome.bind_eq_ok.1 hscan
    cases record with
    | none =>
      cases hscan
      exact h
    | some record =>
      obtain ⟨s₁, hvisit, hscan⟩ := Outcome.bind_eq_ok.1 hscan
      exact ih (h.visit hvisit) hscan

/-- **The order check is exact**, in every section of an accepted file. -/
theorem orderKnown_of_scan {format : CaptureFormat} {data : List UInt8}
    {sections : List SectionScan} (h : scan checks format data = .ok sections) :
    ∀ section_ ∈ sections, section_.scan.OrderKnown := by
  cases format with
  | pcap =>
    obtain ⟨reader, -, h⟩ := Outcome.bind_eq_ok.1 h
    obtain ⟨scan, hloop, h⟩ := Outcome.bind_eq_ok.1 h
    cases h
    intro section_ hmem
    rw [List.mem_singleton.1 hmem]
    exact scanPcapLoop_orderKnown Scan.orderKnown_new hloop
  | pcapng =>
    obtain ⟨s, hloop, h⟩ := Outcome.bind_eq_ok.1 h
    have hnew : PcapngScan.new.OrderKnown := ⟨List.forall_mem_nil _, Scan.orderKnown_new⟩
    have hknown := scanPcapngLoop_orderKnown hnew hloop
    cases h
    intro section_ hmem
    split_ifs at hmem
    · rcases List.mem_append.1 hmem with hmem | hmem
      · exact hknown.sections section_ hmem
      · rw [List.mem_singleton.1 hmem]
        exact hknown.scan
    · exact hknown.sections section_ hmem

/-- `misplaced_count` of `main`. -/
def misplacedCount (sections : List SectionScan) : ℕ :=
  (sections.map fun section_ => section_.scan.misplaced.length).sum

/-- No packet is misplaced exactly when the index of every section is in order. -/
theorem misplacedCount_eq_zero {format : CaptureFormat} {data : List UInt8}
    {sections : List SectionScan} (h : scan checks format data = .ok sections) :
    misplacedCount sections = 0 ↔
      ∀ section_ ∈ sections, (section_.scan.index.map PacketIndex.timestamp).Pairwise (· ≤ ·) := by
  rw [misplacedCount, List.sum_eq_zero_iff_forall_eq_nat]
  simp only [List.mem_map, forall_exists_index, and_imp, forall_apply_eq_imp_iff₂,
    List.length_eq_zero_iff, List.pairwise_map]
  exact forall₂_congr fun section_ hmem => (orderKnown_of_scan h section_ hmem).misplaced

/-! ### A section once more -/

/-- From the first packet on the packets are those of the section. -/
theorem packets_eq_filter (ds : List Decoded) : packets ds = ds.filter isPacket := by
  conv_rhs => rw [← prefixOf_append_behind ds, List.filter_append]
  have hnone : (prefixOf ds).filter isPacket = [] := by
    rw [List.filter_eq_nil_iff]
    intro d hd
    simpa using List.all_eq_true.1 List.all_takeWhile d hd
  rw [hnone, List.nil_append]
  rfl

/-- Blocks that are not packets, then a packet: that is where the section parts. -/
theorem parts_of_packet {quiet : List Decoded} {d : Decoded} {rest : List Decoded}
    (hquiet : ∀ e ∈ quiet, e.isPacket = false) (hd : d.isPacket) :
    prefixOf (quiet ++ d :: rest) = quiet ∧ behind (quiet ++ d :: rest) = d :: rest := by
  have hall : ∀ e ∈ quiet, (!e.isPacket) = true := fun e he => by simp [hquiet e he]
  constructor
  · rw [prefixOf, List.takeWhile_append_of_pos hall, List.takeWhile_cons_of_neg (by simp [hd]),
      List.append_nil]
  · rw [behind, List.dropWhile_append_of_pos hall, List.dropWhile_cons_of_neg (by simp [hd])]

/-- No packet is in front of the first packet, or a late interface description. -/
theorem quiet_of_reorder (ds : List Decoded) :
    ∀ d ∈ prefixOf ds ++ lateInterfaces ds, d.isPacket = false := by
  intro d hd
  rcases List.mem_append.1 hd with hmem | hmem
  · simpa using List.all_eq_true.1 List.all_takeWhile d hmem
  · have hinterface := (List.mem_filter.1 hmem).2
    cases hpacket : d.isPacket with
    | false => rfl
    | true => rw [not_interface_of_packet hpacket] at hinterface; cases hinterface

/-- A filter that takes all of one list and nothing of the next. -/
theorem filter_append_eq_left {α : Type} {p : α → Bool} {as bs : List α} (ha : ∀ a ∈ as, p a)
    (hb : ∀ b ∈ bs, p b = false) : (as ++ bs).filter p = as := by
  rw [List.filter_append, List.filter_eq_self.2 ha,
    List.filter_eq_nil_iff.2 fun b hb' => by simp [hb b hb'], List.append_nil]

/-- Filtering leaves the part where the predicate holds. -/
theorem filter_append_eq_right {α : Type} {p : α → Bool} {as bs : List α}
    (ha : ∀ a ∈ as, p a = false) (hb : ∀ b ∈ bs, p b) : (as ++ bs).filter p = bs := by
  rw [List.filter_append, List.filter_eq_self.2 hb,
    List.filter_eq_nil_iff.2 fun a ha' => by simp [ha a ha'], List.nil_append]

/-- A packet is no other block. -/
theorem not_other_of_packet {d : Decoded} (h : d.isPacket) : d.isOther = false := by
  unfold Decoded.isPacket at h
  unfold Decoded.isOther
  cases hb : d.block <;> simp [hb] at h ⊢

/-- Another block is no packet. -/
theorem not_packet_of_other {d : Decoded} (h : d.isOther) : d.isPacket = false := by
  cases hpacket : d.isPacket with
  | false => rfl
  | true => rw [not_other_of_packet hpacket] at h; cases h

/-- The packets and the other blocks of a section, as they are written. -/
theorem mem_sorted {ds : List Decoded} {d : Decoded}
    (hd : d ∈ sortByKey timestamp (packets ds)) : d.isPacket :=
  (List.mem_filter.1 ((sortByKey_perm _ _).mem_iff.1 hd)).2

/-- **A section that was reordered** parts behind the late interface descriptions;
what is behind them are the sorted packets and the other blocks. -/
theorem parts_reorder (ds : List Decoded) :
    (packets ds = [] ∧ reorder ds = ds) ∨
      (prefixOf (reorder ds) = prefixOf ds ++ lateInterfaces ds ∧
        behind (reorder ds) = sortByKey timestamp (packets ds) ++ others ds) := by
  cases hsorted : sortByKey timestamp (packets ds) with
  | nil =>
    have hnone : packets ds = [] := by
      have hperm := sortByKey_perm timestamp (packets ds)
      rw [hsorted] at hperm
      exact hperm.nil_eq.symm
    refine .inl ⟨hnone, ?_⟩
    -- without a packet nothing is behind the first one
    have hbehind : behind ds = [] := by
      cases hb : behind ds with
      | nil => rfl
      | cons d rest =>
        have hd : d.isPacket := by
          have hhead := List.head?_dropWhile_not (fun d : Decoded => !d.isPacket) ds
          rw [← behind, hb] at hhead
          simpa using hhead
        have hmem : d ∈ packets ds := List.mem_filter.2 ⟨by rw [hb]; exact List.mem_cons_self .., hd⟩
        rw [hnone] at hmem
        cases hmem
    have hds := prefixOf_append_behind ds
    rw [reorder, lateInterfaces, others, hsorted, hbehind]
    rw [hbehind, List.append_nil] at hds
    simp [hds]
  | cons d rest =>
    have hd : d.isPacket := mem_sorted (hsorted ▸ List.mem_cons_self ..)
    obtain ⟨hbefore, hbehind⟩ := @parts_of_packet _ d (rest ++ others ds) (quiet_of_reorder ds) hd
    refine .inr ⟨?_, ?_⟩
    · rw [reorder, hsorted, List.append_assoc]
      exact hbefore
    · rw [reorder, hsorted, List.append_assoc]
      exact hbehind

/-- The packets of a section that was reordered are sorted. -/
theorem packets_reorder (ds : List Decoded) :
    packets (reorder ds) = sortByKey timestamp (packets ds) := by
  rcases parts_reorder ds with ⟨hnone, hds⟩ | ⟨-, hbehind⟩
  · rw [hds, hnone]
    exact (sortByKey_of_pairwise .nil).symm
  · rw [packets, hbehind]
    exact filter_append_eq_left (fun d hd => mem_sorted hd)
      fun d hd => not_packet_of_other (List.mem_filter.1 hd).2

/-- **Reordering again changes nothing.** -/
theorem reorder_reorder (ds : List Decoded) : reorder (reorder ds) = reorder ds := by
  rcases parts_reorder ds with ⟨-, hds⟩ | ⟨hbefore, hbehind⟩
  · rw [hds, hds]
  · have hlate : lateInterfaces (reorder ds) = [] := by
      rw [lateInterfaces, hbehind, List.filter_eq_nil_iff]
      intro d hd
      rcases List.mem_append.1 hd with hmem | hmem
      · simp [not_interface_of_packet (mem_sorted hmem)]
      · simp [not_interface_of_other (List.mem_filter.1 hmem).2]
    have hothers : others (reorder ds) = others ds := by
      rw [others, hbehind]
      exact filter_append_eq_right (fun d hd => not_other_of_packet (mem_sorted hd))
        fun d hd => (List.mem_filter.1 hd).2
    have hsorted : sortByKey timestamp (packets (reorder ds)) = sortByKey timestamp (packets ds) := by
      rw [packets_reorder]
      exact sortByKey_of_pairwise (stablySorted_sortByKey timestamp _).sorted
    rw [reorder, hbefore, hlate, hothers, hsorted, List.append_nil, reorder]

/-- A section that was reordered is a section. -/
theorem IsSection.reorder {ds : List Decoded} (h : IsSection ds) : IsSection (reorder ds) := by
  have hperm := (sectionReordered h).perm
  obtain ⟨header, rest, rfl, hheader, hrest⟩ := h
  have hbefore : prefixOf (header :: rest) = header :: prefixOf rest := by
    rw [prefixOf, List.takeWhile_cons_of_pos (by simp [not_packet_of_header hheader])]
    rfl
  rw [Reordercap.reorder, hbefore] at hperm ⊢
  exact ⟨header, _, rfl, hheader, fun d hd => hrest d ((List.perm_cons header).1 hperm |>.mem_iff.1 hd)⟩

/-! ### The parts of a file are its own -/

/-- A row of sections parts in one way. -/
theorem sections_unique {input input' : List (List Decoded)} (h : ∀ ds ∈ input, IsSection ds)
    (h' : ∀ ds ∈ input', IsSection ds) (hflat : input.flatten = input'.flatten) :
    input = input' := by
  -- what follows the header of the first section, up to the next header
  have hrest : ∀ {rest : List Decoded} {others : List (List Decoded)}, InSection rest →
      (∀ ds ∈ others, IsSection ds) →
      (rest ++ others.flatten).takeWhile (fun d => !d.isHeader) = rest := by
    intro rest others hsection hall
    rw [List.takeWhile_append_of_pos fun d hd => by simp [(hsection d hd).1]]
    cases others with
    | nil => simp
    | cons ds others =>
      obtain ⟨header, tail, rfl, hheader, -⟩ := hall ds (List.mem_cons_self ..)
      simp [hheader]
  induction input generalizing input' with
  | nil =>
    cases input' with
    | nil => rfl
    | cons ds input' =>
      obtain ⟨header, tail, rfl, -, -⟩ := h' ds (List.mem_cons_self ..)
      simp at hflat
  | cons ds input ih =>
    obtain ⟨header, rest, rfl, hheader, hsection⟩ := h ds (List.mem_cons_self ..)
    have hall : ∀ ds ∈ input, IsSection ds := fun es hes => h es (List.mem_cons_of_mem _ hes)
    cases input' with
    | nil => simp at hflat
    | cons ds' input' =>
      obtain ⟨header', rest', rfl, hheader', hsection'⟩ := h' ds' (List.mem_cons_self ..)
      have hall' : ∀ ds ∈ input', IsSection ds := fun es hes => h' es (List.mem_cons_of_mem _ hes)
      rw [List.flatten_cons, List.flatten_cons, List.cons_append, List.cons_append,
        List.cons.injEq] at hflat
      obtain ⟨rfl, hflat⟩ := hflat
      have hsame : rest = rest' := by
        rw [← hrest hsection hall, ← hrest hsection' hall', hflat]
      subst hsame
      rw [ih hall hall' (List.append_cancel_left hflat)]

/-- Bytes are read as one row of blocks. -/
theorem reads_unique {ctx ctx' : Context} {ds ds' : List Decoded} (h : Reads start ds ctx)
    (h' : Reads start ds' ctx') (hbytes : rawBytes Decoded.raw ds = rawBytes Decoded.raw ds') :
    ds = ds' := by
  have hitems := @items_of_reads _ _ (PcapngSliceReader.new (rawBytes Decoded.raw ds)) h rfl
  have hitems' := @items_of_reads _ _ (PcapngSliceReader.new (rawBytes Decoded.raw ds)) h' hbytes
  rw [← map_snd_locate Decoded.raw 0 ds, ← map_snd_locate Decoded.raw 0 ds']
  exact congrArg _ (hitems.unique hitems')

/-- And as one row of records. -/
theorem records_unique {head : List UInt8} {header : PcapHeader} {records records' : List PcapRecord}
    (hlen : head.length = PcapHeader.LEN) (hparse : PcapHeader.parse head = .ok header)
    (h : AllHold header records) (h' : AllHold header records')
    (hbytes : rawBytes Prod.fst records = rawBytes Prod.fst records') : records = records' := by
  obtain ⟨reader, -, hheader, hremaining, -⟩ :=
    @pcap_new head (rawBytes Prod.fst records) header hlen hparse
  have hitems := pcap_items (hheader ▸ h) hremaining
  have hitems' := pcap_items (hheader ▸ h') (hremaining.trans hbytes)
  have hmap : ∀ rs : List PcapRecord,
      ((locate Prod.fst reader.pos rs).map toLocated).map (fun l => (l.raw, l.packet)) = rs := by
    intro rs
    rw [List.map_map]
    exact map_snd_locate ..
  rw [← hmap records, ← hmap records', hitems.unique hitems']

/-! ### Running the tool twice -/

/-- The timestamps of the packets of a file, section by section, in the order of the
file. -/
def PacketTimes (format : CaptureFormat) (data : List UInt8) (times : List (List I64)) : Prop :=
  match format with
  | .pcap => ∃ header records, PcapDecodes data header records ∧
      times = [records.map fun r => r.2.timestamp]
  | .pcapng => ∃ input : List (List Decoded), PcapngDecodes data input.flatten ∧
      (∀ ds ∈ input, IsSection ds) ∧ times = input.map fun ds => (ds.filter isPacket).map timestamp

/-- What `main` does with its input: the format is detected, and the file scanned. -/
def scanFile (checks : Bool) (data : List UInt8) :
    Outcome ScanError (CaptureFormat × List SectionScan) := do
  let format ← (sniffFormat data).mapErr .capture
  let sections ← scan checks format data
  pure (format, sections)

/-- What is to be shown of a scan: the check is exact, and the output is in order and
comes out again. -/
def ReordersOnce (checks : Bool) (format : CaptureFormat) (data : List UInt8)
    (sections : List SectionScan) : Prop :=
  ∃ times out rescanned, PacketTimes format data times ∧
    (misplacedCount sections = 0 ↔ ∀ ts ∈ times, ts.Pairwise (· ≤ ·)) ∧
    (writeReordered data (sortSections sections) : Outcome ScanError _) = .ok out ∧
    out.take 4 = data.take 4 ∧ scan checks format out = .ok rescanned ∧ misplacedCount rescanned = 0 ∧
    (writeReordered out (sortSections rescanned) : Outcome ScanError _) = .ok out

/-- The order of the index is the order of the packets. -/
theorem misplacedCount_eq_zero_iff (format : CaptureFormat) {data : List UInt8}
    {sections : List SectionScan} {times : List (List I64)} (h : scan checks format data = .ok sections)
    (hindex : (sections.map fun s => s.scan.index.map PacketIndex.timestamp) = times) :
    misplacedCount sections = 0 ↔ ∀ ts ∈ times, ts.Pairwise (· ≤ ·) := by
  rw [misplacedCount_eq_zero h, ← hindex, List.forall_mem_map]

/-- The indices of the sections list the packets. -/
theorem index_times {input : List (List Decoded)} {sections : List SectionScan} {pos : ℕ}
    (h : List.Forall₂ SectionShown sections (locate (rawBytes Decoded.raw) pos input)) :
    (sections.map fun s => s.scan.index.map PacketIndex.timestamp) =
      input.map fun ds => (ds.filter isPacket).map timestamp := by
  induction input generalizing sections pos with
  | nil =>
    cases h
    rfl
  | cons ds input ih =>
    rw [locate_cons] at h
    cases h with
    | cons hhead htail =>
      rw [List.map_cons, List.map_cons, ih htail, hhead.index, List.map_map,
        ← packets_eq_filter, packets, ← map_snd_filter_behindAt pos, List.map_map]
      rfl

/-- A file of sections starts with the first header. -/
theorem take_reorder {input : List (List Decoded)} {ctx : Context}
    (hsections : ∀ ds ∈ input, IsSection ds) (hreads : Reads start input.flatten ctx) :
    (rawBytes Decoded.raw (input.map reorder).flatten).take 4 =
      (rawBytes Decoded.raw input.flatten).take 4 := by
  cases input with
  | nil => rfl
  | cons ds input =>
    obtain ⟨header, rest, rfl, hheader, -⟩ := hsections ds (List.mem_cons_self ..)
    have hbefore : prefixOf (header :: rest) = header :: prefixOf rest := by
      rw [prefixOf, List.takeWhile_cons_of_pos (by simp [not_packet_of_header hheader])]
      rfl
    have htwelve : 12 ≤ header.raw.length := by
      rw [List.flatten_cons, List.cons_append] at hreads
      cases hreads with
      | cons hd _ => exact hd.twelve_le
    rw [List.map_cons, List.flatten_cons, List.flatten_cons, reorder, hbefore]
    simp only [List.cons_append, rawBytes_cons]
    rw [List.take_append_of_le_length (by omega), List.take_append_of_le_length (by omega)]

/-- **A pcapng file.** -/
theorem reordersOnce_pcapng {data : List UInt8} {sections : List SectionScan}
    (h : scanPcapng checks data = .ok sections) : ReordersOnce checks .pcapng data sections := by
  obtain ⟨input, ctx', hreads, hdata, hsections, hshown⟩ := sections_of_scan h
  have hreads' := reads_reorder_all hsections hreads
  have hwrite : ∀ {front : List (List Decoded)} {scans : List SectionScan},
      List.Forall₂ SectionShown scans (locate (rawBytes Decoded.raw) 0 front) →
      (writeReordered (rawBytes Decoded.raw front.flatten) (sortSections scans) :
        Outcome ScanError _) = .ok (rawBytes Decoded.raw (front.map reorder).flatten) :=
    fun hfront => @copyRanges_sections ScanError [] _ _ hfront
  obtain ⟨rescanned, hrescan⟩ := scanPcapng_of_calm hreads'
    (calm_reorder_all hsections hreads.packet_isSome)
  obtain ⟨input', _, hreads'', hdata', hsections', hshown'⟩ := sections_of_scan hrescan
  have hall : ∀ ds ∈ input.map reorder, IsSection ds := by
    rintro _ hds
    obtain ⟨ds, hmem, rfl⟩ := List.mem_map.1 hds
    exact (hsections ds hmem).reorder
  obtain rfl : input.map reorder = input' :=
    sections_unique hall hsections' (reads_unique hreads' hreads'' hdata')
  refine ⟨_, rawBytes Decoded.raw (input.map reorder).flatten, rescanned,
    ⟨input, ⟨_, @items_of_reads _ _ (PcapngSliceReader.new data) hreads hdata, map_snd_locate ..⟩,
      hsections, rfl⟩, misplacedCount_eq_zero_iff .pcapng h (index_times hshown), ?_, ?_,
    hrescan, ?_, ?_⟩
  · rw [hdata]
    exact hwrite hshown
  · rw [take_reorder hsections hreads, hdata]
  · rw [misplacedCount_eq_zero_iff .pcapng hrescan (index_times hshown')]
    intro ts hts
    simp only [List.map_map, List.mem_map, Function.comp_apply] at hts
    obtain ⟨ds, -, rfl⟩ := hts
    rw [← packets_eq_filter, packets_reorder, List.pairwise_map]
    exact (stablySorted_sortByKey timestamp _).sorted
  · rw [hwrite hshown', List.map_map]
    have hfixed : reorder ∘ reorder = reorder := funext reorder_reorder
    rw [hfixed]

/-- **A pcap file.** -/
theorem reordersOnce_pcap {data : List UInt8} {sections : List SectionScan}
    (h : scanPcap checks data = .ok sections) : ReordersOnce checks .pcap data sections := by
  obtain ⟨head, header, records, scan, hlen, hparse, hall, hdata, rfl, hindex⟩ := records_of_scan h
  obtain ⟨sorted, hsorted⟩ : ∃ sorted, sorted = sortByKey (fun r : PcapRecord => r.2.timestamp)
    records := ⟨_, rfl⟩
  have hstable : StablySorted (fun r : PcapRecord => r.2.timestamp) records sorted :=
    hsorted ▸ stablySorted_sortByKey ..
  have hall' : AllHold header sorted := fun r hr => hall r (hstable.perm.mem_iff.1 hr)
  obtain ⟨out, hout, hreordered, rescanned, hrescan⟩ := reorder_pcap (ε := ScanError) h
  have hwritten := writeReordered_pcap (ε := ScanError) hlen hindex
  rw [← hdata, hout, ← hsorted] at hwritten
  obtain rfl : out = head ++ rawBytes Prod.fst sorted := by simpa using hwritten
  obtain ⟨head', header', records', scan', hlen', hparse', hall'', hdata', rfl, hindex'⟩ :=
    records_of_scan hrescan
  obtain ⟨rfl, hrecords⟩ := List.append_inj hdata' (hlen.trans hlen'.symm)
  rw [hparse] at hparse'
  cases hparse'
  obtain rfl : sorted = records' := records_unique hlen hparse hall' hall'' hrecords
  have htimes : ∀ {scan : Scan} {rs : List PcapRecord},
      scan.index = (locate Prod.fst PcapHeader.LEN rs).map pcapEntryOf →
      scan.index.map PacketIndex.timestamp = rs.map fun r => r.2.timestamp := by
    intro scan rs hscan
    conv_rhs => rw [← map_snd_locate Prod.fst PcapHeader.LEN rs, List.map_map]
    rw [hscan, List.map_map]
    rfl
  refine ⟨_, head ++ rawBytes Prod.fst sorted, _,
    ⟨header, records, hdata ▸ pcapDecodes hlen hparse hall, rfl⟩,
    misplacedCount_eq_zero_iff .pcap h (congrArg (fun ts => [ts]) (htimes hindex)), hout,
    ?_, hrescan, ?_, ?_⟩
  · have hfour : 4 ≤ head.length := by
      rw [hlen]
      decide
    rw [hdata, List.take_append_of_le_length hfour, List.take_append_of_le_length hfour]
  · rw [misplacedCount_eq_zero_iff .pcap hrescan
      (congrArg (fun ts => [ts]) (htimes hindex'))]
    intro ts hts
    rw [List.mem_singleton.1 hts, List.pairwise_map]
    exact hstable.sorted
  · rw [writeReordered_pcap hlen hindex', sortByKey_of_pairwise hstable.sorted]

/-- The format is in the first four bytes. -/
theorem sniffFormat_congr {format : CaptureFormat} {data out : List UInt8}
    {rescanned : List SectionScan} (h : sniffFormat data = .ok format)
    (htake : out.take 4 = data.take 4) (hscan : scan checks format out = .ok rescanned) :
    sniffFormat out = .ok format := by
  have hlength := congrArg List.length htake
  rw [List.length_take, List.length_take] at hlength
  unfold sniffFormat at h ⊢
  split_ifs at h with hshort
  obtain ⟨magic, hmagic, h⟩ := Outcome.bind_eq_ok.1 h
  rw [if_neg (by omega), htake, hmagic, Outcome.ok_bind]
  cases magic with
  | pcapng => exact h
  | pcap =>
    obtain ⟨_, -, h⟩ := Outcome.bind_eq_ok.1 h
    cases h
    obtain ⟨reader, hreader, -⟩ := Outcome.bind_eq_ok.1 hscan
    cases hnew : PcapSliceReader.new out <;> rw [hnew] at hreader <;> cases hreader
    rfl

/-- **Reordering is idempotent, and its order check is exact.**  For every capture
that is accepted: no packet is misplaced exactly when in every section the packets
are in order; the output is accepted with no packet misplaced; and it is written
again byte for byte. -/
theorem reorder_idempotent (checks : Bool) (data : List UInt8) (format : CaptureFormat)
    (sections : List SectionScan) (h : scanFile checks data = .ok (format, sections)) :
    ∃ times out rescanned, PacketTimes format data times ∧
      (misplacedCount sections = 0 ↔ ∀ ts ∈ times, ts.Pairwise (· ≤ ·)) ∧
      (writeReordered data (sortSections sections) : Outcome ScanError _) = .ok out ∧
      scanFile checks out = .ok (format, rescanned) ∧ misplacedCount rescanned = 0 ∧
      (writeReordered out (sortSections rescanned) : Outcome ScanError _) = .ok out := by
  obtain ⟨format', hsniff, h⟩ := Outcome.bind_eq_ok.1 h
  obtain ⟨sections', hscan, h⟩ := Outcome.bind_eq_ok.1 h
  cases h
  have honce : ReordersOnce checks format data sections := by
    cases format with
    | pcap => exact reordersOnce_pcap hscan
    | pcapng => exact reordersOnce_pcapng hscan
  obtain ⟨times, out, rescanned, htimes, hcheck, hwrite, htake, hrescan, hzero, hagain⟩ := honce
  have hformat : sniffFormat data = .ok format := by
    cases hs : sniffFormat data <;> rw [hs] at hsniff <;> cases hsniff
    rfl
  refine ⟨times, out, rescanned, htimes, hcheck, hwrite, ?_, hzero, hagain⟩
  rw [scanFile, sniffFormat_congr hformat htake hrescan]
  simp only [Outcome.mapErr, Outcome.ok_bind, hrescan]
  rfl

/-- The file of two packets out of order. -/
theorem reorder_idempotent_twoPackets :
    ∃ times out rescanned, PacketTimes .pcapng twoPackets times ∧
      (misplacedCount [⟨(0, 48), [],
        ⟨[⟨I64.ofInt 9000, 48, 32⟩, ⟨I64.ofInt 5000, 80, 32⟩],
          [⟨2, I64.ofInt 5000, 1, I64.ofInt 4000⟩], I64.ofInt 9000, 1⟩, []⟩] = 0 ↔
        ∀ ts ∈ times, ts.Pairwise (· ≤ ·)) ∧
      (writeReordered twoPackets (sortSections [⟨(0, 48), [],
        ⟨[⟨I64.ofInt 9000, 48, 32⟩, ⟨I64.ofInt 5000, 80, 32⟩],
          [⟨2, I64.ofInt 5000, 1, I64.ofInt 4000⟩], I64.ofInt 9000, 1⟩, []⟩]) :
        Outcome ScanError _) = .ok out ∧
      scanFile true out = .ok (.pcapng, rescanned) ∧ misplacedCount rescanned = 0 ∧
      (writeReordered out (sortSections rescanned) : Outcome ScanError _) = .ok out :=
  reorder_idempotent true twoPackets .pcapng _ (by decide +kernel)

end Reordercap
end Maja
