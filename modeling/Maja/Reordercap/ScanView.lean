/-
# What a scan of a pcapng file finds

`scan_pcapng` sees the file as the row of blocks that it decodes to
(`scanPcapngLoop_eq`), and its variables describe how that row falls into sections
(`Shows`): the sections that are closed, and the blocks of the one that is open.
`Shows.visit` is the step, for one block, and `Shows.scan` the run.
-/

import Maja.Reordercap.Scan
import Maja.Reordercap.Sections

namespace Maja
namespace Reordercap

open Lib Capture Decoded

variable {checks : Bool}

/-! ### From the reader to the row of blocks -/

/-- The `match` of `scan_pcapng` on a decoded block. -/
def visitDecoded (checks : Bool) (s : PcapngScan) (l : ℕ × Decoded) : Outcome ScanError PcapngScan :=
  match l.2.block, l.2.packet with
  | .enhancedPacket _ _, some (_, timestamp) => do
      let s := { s with prefixEnd := some (s.prefixEnd.getD l.1), frame := s.frame + 1 }
      let scan ← s.scan.push checks timestamp l.1 l.2.raw.length s.frame
      pure { s with scan := scan }
  | _, _ => s.visit checks [] ⟨l.1, l.2.raw, l.2.block⟩

/-- A scan of decoded blocks. -/
def scanDecoded (checks : Bool) : PcapngScan → List (ℕ × Decoded) → Outcome ScanError PcapngScan
  | s, [] => .ok s
  | s, l :: ls => do
      let s ← visitDecoded checks s l
      scanDecoded checks s ls

/-- Visiting a block pushes it by its kind. -/
theorem visit_eq {interfaces : List InterfaceDescription} {d : Decoded}
    (h : packetOf interfaces d.block = .ok d.packet) (offset : ℕ) (s : PcapngScan) :
    s.visit checks interfaces ⟨offset, d.raw, d.block⟩ = visitDecoded checks s (offset, d) := by
  obtain ⟨raw, block, packet⟩ := d
  cases block with
  | enhancedPacket ep data =>
    rw [packetOf] at h
    cases hi : interfaces[ep.interfaceId]? with
    | none => simp [hi] at h
    | some interface =>
      rw [hi] at h
      obtain ⟨timestamp, htimestamp, hpacket⟩ := Outcome.bind_eq_ok.1 h
      obtain rfl : some (interface, timestamp) = packet := by simpa using hpacket
      simp [PcapngScan.visit, visitDecoded, hi, htimestamp, Outcome.mapErr]
  | _ => rfl

/-- A block that is accepted has been decoded. -/
theorem packetOf_of_visit {interfaces : List InterfaceDescription} {record : PcapngBlockRecord}
    {s s' : PcapngScan} (h : s.visit checks interfaces record = .ok s') :
    ∃ packet, packetOf interfaces record.block = .ok packet := by
  unfold PcapngScan.visit at h
  unfold packetOf
  cases hb : record.block with
  | enhancedPacket ep data =>
    rw [hb] at h
    dsimp only at h ⊢
    cases hi : interfaces[ep.interfaceId]? with
    | none => simp [hi] at h
    | some interface =>
      rw [hi] at h
      obtain ⟨timestamp, htimestamp, -⟩ := Outcome.bind_eq_ok.1 h
      cases hstamp : ep.packetTimestamp interface <;> simp [hstamp, Outcome.mapErr] at htimestamp
      simp [hstamp]
  | _ => exact ⟨none, rfl⟩

/-- The scan of a file is the scan of the blocks that it decodes to. -/
theorem scanPcapngLoop_eq {reader : PcapngSliceReader} {located : List (ℕ × Decoded)}
    (h : Items nextDecoded reader located) {fuel : ℕ} (hfuel : located.length < fuel)
    (s : PcapngScan) : scanPcapngLoop checks fuel reader s = scanDecoded checks s located := by
  induction h generalizing fuel s with
  | @done r r' h =>
    obtain ⟨fuel, rfl⟩ := Nat.exists_eq_succ_of_ne_zero (Nat.ne_of_gt hfuel)
    simp [scanPcapngLoop, nextBlock_of_nextDecoded_none h, Outcome.mapErr, scanDecoded]
  | @next r r' l ls h _ ih =>
    obtain ⟨fuel, rfl⟩ := Nat.exists_eq_succ_of_ne_zero (show fuel ≠ 0 by omega)
    obtain ⟨hblock, hpacket⟩ := nextBlock_of_nextDecoded h
    have hrest := ih (show ls.length < fuel by simpa using hfuel)
    simp only [scanPcapngLoop, hblock, Outcome.mapErr, Outcome.ok_bind, visit_eq hpacket,
      scanDecoded, hrest]

/-- A file that is accepted decodes to a row of blocks. -/
theorem exists_items_of_scan {fuel : ℕ} {reader : PcapngSliceReader} {s s' : PcapngScan}
    (h : scanPcapngLoop checks fuel reader s = .ok s') :
    ∃ located, Items nextDecoded reader located ∧ located.length < fuel := by
  induction fuel generalizing reader s with
  | zero => simp [scanPcapngLoop] at h
  | succ fuel ih =>
    rcases hblock : PcapngSliceReader.nextBlock reader with ⟨_ | r, t⟩ | e | _ | _
    · have hnone : nextDecoded reader = .ok (none, t) := by simp [nextDecoded, hblock]
      exact ⟨[], .done hnone, Nat.succ_pos _⟩
    · simp only [scanPcapngLoop, hblock, Outcome.mapErr, Outcome.ok_bind] at h
      obtain ⟨u, hvisit, hloop⟩ := Outcome.bind_eq_ok.1 h
      obtain ⟨packet, hpacket⟩ := packetOf_of_visit hvisit
      obtain ⟨ls, hls, hlen⟩ := ih hloop
      have hnext : nextDecoded reader = .ok (some (r.offset, ⟨r.raw, r.block, packet⟩), t) := by
        rw [nextDecoded_of_nextBlock hblock, hpacket, Prog.lift_ok, Outcome.ok_bind]
      exact ⟨_ :: ls, .next hnext hls, Nat.succ_lt_succ hlen⟩
    all_goals simp [scanPcapngLoop, hblock, Outcome.mapErr] at h

/-! ### From the row of blocks to the sections -/

/-- The blocks of a section from its first packet on, with their offsets. -/
def behindAt (start : ℕ) (ds : List Decoded) : List (ℕ × Decoded) :=
  locate Decoded.raw (start + (rawBytes Decoded.raw (prefixOf ds)).length) (behind ds)

/-- The range of a block. -/
def rangeOf (l : ℕ × Decoded) : ℕ × ℕ := (l.1, l.2.raw.length)

/-- The index entry of a packet. -/
def entryOf (l : ℕ × Decoded) : PacketIndex := ⟨l.2.timestamp, l.1, l.2.raw.length⟩

/-- The ranges and the index of a scan describe the blocks of the section that
starts at `l.1`. -/
structure SectionShown (section_ : SectionScan) (l : ℕ × List Decoded) : Prop where
  prefixRange : section_.prefixRange = (l.1, (rawBytes Decoded.raw (prefixOf l.2)).length)
  lateIdbs : section_.lateIdbs = ((behindAt l.1 l.2).filter (·.2.isInterface)).map rangeOf
  index : section_.scan.index = ((behindAt l.1 l.2).filter (·.2.isPacket)).map entryOf
  suffix : section_.suffix = ((behindAt l.1 l.2).filter (·.2.isOther)).map rangeOf

/-- The variables describe the blocks `cur` of the section that is open. -/
structure OpenShown (s : PcapngScan) (start : ℕ) (cur : List Decoded) : Prop where
  sectionStart : s.sectionStart = start
  prefixEnd : s.prefixEnd = if behind cur = [] then none else
    some (start + (rawBytes Decoded.raw (prefixOf cur)).length)
  lateIdbs : s.lateIdbs = ((behindAt start cur).filter (·.2.isInterface)).map rangeOf
  index : s.scan.index = ((behindAt start cur).filter (·.2.isPacket)).map entryOf
  suffix : s.suffix = ((behindAt start cur).filter (·.2.isOther)).map rangeOf

/-- Closing the section at the end of its blocks. -/
theorem OpenShown.close {s : PcapngScan} {start : ℕ} {cur : List Decoded}
    (h : OpenShown s start cur) :
    SectionShown (s.close (start + (rawBytes Decoded.raw cur).length)) (start, cur) := by
  refine ⟨?_, h.lateIdbs, h.index, h.suffix⟩
  rw [PcapngScan.close, h.sectionStart, h.prefixEnd]
  split_ifs with hnil
  · have hcur := prefixOf_append_behind cur
    rw [hnil, List.append_nil] at hcur
    simp [hcur]
  · simp

/-- A section's blocks from the first packet on, when a block is added. -/
theorem behind_concat (ds : List Decoded) (d : Decoded) :
    behind (ds ++ [d]) = if behind ds = [] then (if d.isPacket then [d] else [])
      else behind ds ++ [d] := by
  unfold behind
  rw [List.dropWhile_append]
  cases hds : ds.dropWhile fun d => !d.isPacket with
  | nil => cases hd : d.isPacket <;> simp [hd]
  | cons e es => simp

/-- A block is added in front of the first packet. -/
theorem concat_prefix {ds : List Decoded} {d : Decoded} (hnil : behind ds = [])
    (hd : d.isPacket = false) : behind (ds ++ [d]) = [] ∧ prefixOf (ds ++ [d]) = ds ++ [d] := by
  have hbehind : behind (ds ++ [d]) = [] := by simp [behind_concat, hnil, hd]
  have hsplit := prefixOf_append_behind (ds ++ [d])
  rw [hbehind, List.append_nil] at hsplit
  exact ⟨hbehind, hsplit⟩

/-- The first packet is added. -/
theorem concat_first {ds : List Decoded} {d : Decoded} (hnil : behind ds = [])
    (hd : d.isPacket) : behind (ds ++ [d]) = [d] ∧ prefixOf (ds ++ [d]) = ds := by
  have hbehind : behind (ds ++ [d]) = [d] := by simp [behind_concat, hnil, hd]
  have hsplit := prefixOf_append_behind (ds ++ [d])
  rw [hbehind] at hsplit
  exact ⟨hbehind, List.append_cancel_right hsplit⟩

/-- A block is added behind the first packet. -/
theorem concat_behind {ds : List Decoded} (hne : behind ds ≠ []) (d : Decoded) :
    behind (ds ++ [d]) = behind ds ++ [d] ∧ prefixOf (ds ++ [d]) = prefixOf ds := by
  have hbehind : behind (ds ++ [d]) = behind ds ++ [d] := by rw [behind_concat, if_neg hne]
  have hsplit := prefixOf_append_behind (ds ++ [d])
  rw [hbehind, ← List.append_assoc] at hsplit
  have hds := List.append_cancel_right hsplit
  conv_rhs at hds => rw [← prefixOf_append_behind ds]
  exact ⟨hbehind, List.append_cancel_right hds⟩

/-- The offset of a block that is added is the end of the section. -/
theorem behindAt_concat {start : ℕ} {ds : List Decoded} (hne : behind ds ≠ []) (d : Decoded) :
    behindAt start (ds ++ [d]) =
      behindAt start ds ++ [(start + (rawBytes Decoded.raw ds).length, d)] := by
  obtain ⟨hbehind, hbefore⟩ := concat_behind hne d
  have hlen : (rawBytes Decoded.raw (prefixOf ds)).length +
      (rawBytes Decoded.raw (behind ds)).length = (rawBytes Decoded.raw ds).length := by
    rw [← List.length_append, ← rawBytes_append, prefixOf_append_behind]
  rw [behindAt, hbehind, hbefore, locate_append, Nat.add_assoc, hlen]
  rfl

/-- The variables before a section has blocks. -/
theorem openShown_nil {s : PcapngScan} {start : ℕ} (hstart : s.sectionStart = start)
    (hend : s.prefixEnd = none) (hlate : s.lateIdbs = []) (hindex : s.scan.index = [])
    (hsuffix : s.suffix = []) : OpenShown s start [] :=
  ⟨hstart, hend, hlate, hindex, hsuffix⟩

/-- What `visit` does with a block in front of the first packet, as far as the open
section goes: nothing. -/
theorem OpenShown.concat_prefix {s : PcapngScan} {start : ℕ} {cur : List Decoded} {d : Decoded}
    (h : OpenShown s start cur) (hnil : behind cur = []) (hd : d.isPacket = false) :
    OpenShown s start (cur ++ [d]) := by
  obtain ⟨hbehind, hbefore⟩ := Reordercap.concat_prefix hnil hd
  have hat : ∀ ds : List Decoded, behind ds = [] → behindAt start ds = [] := by
    intro ds hds
    rw [behindAt, hds, locate_nil]
  have hend := h.prefixEnd
  have hlate := h.lateIdbs
  have hindex := h.index
  have hsuffix := h.suffix
  rw [if_pos hnil] at hend
  rw [hat cur hnil] at hlate hindex hsuffix
  refine ⟨h.sectionStart, by rw [hend, if_pos hbehind], ?_, ?_, ?_⟩
  all_goals rw [hat _ hbehind]
  · exact hlate
  · exact hindex
  · exact hsuffix

/-- A packet whose timestamp was pushed joins the index. -/
theorem Scan.push_index {ε : Type} {scan scan' : Scan} {timestamp : I64} {offset len frame : ℕ}
    (h : (scan.push checks timestamp offset len frame : Outcome ε Scan) = .ok scan') :
    scan'.index = scan.index ++ [⟨timestamp, offset, len⟩] := by
  unfold Scan.push at h
  split_ifs at h
  · obtain ⟨backward, -, hpush⟩ := Outcome.bind_eq_ok.1 h
    simp only [Outcome.pure_eq, Outcome.ok_bind, Outcome.ok.injEq] at hpush
    rw [← hpush]
  · simp only [Outcome.pure_eq, Outcome.ok_bind, Outcome.ok.injEq] at h
    rw [← h]

/-- A block behind the first packet joins the ranges of its kind. -/
theorem OpenShown.concat_behind {s s' : PcapngScan} {start : ℕ} {cur : List Decoded} {d : Decoded}
    (h : OpenShown s start cur) (hne : behind cur ≠ []) (hstart : s'.sectionStart = s.sectionStart)
    (hend : s'.prefixEnd = s.prefixEnd)
    (hlate : s'.lateIdbs = s.lateIdbs ++ if d.isInterface then
      [rangeOf (start + (rawBytes Decoded.raw cur).length, d)] else [])
    (hindex : s'.scan.index = s.scan.index ++ if d.isPacket then
      [entryOf (start + (rawBytes Decoded.raw cur).length, d)] else [])
    (hsuffix : s'.suffix = s.suffix ++ if d.isOther then
      [rangeOf (start + (rawBytes Decoded.raw cur).length, d)] else []) :
    OpenShown s' start (cur ++ [d]) := by
  obtain ⟨hbehind, hbefore⟩ := Reordercap.concat_behind hne d
  have hfilter : ∀ {β : Type} (p : Decoded → Bool) (f : ℕ × Decoded → β),
      ((behindAt start (cur ++ [d])).filter (p ·.2)).map f =
        ((behindAt start cur).filter (p ·.2)).map f ++
          if p d then [f (start + (rawBytes Decoded.raw cur).length, d)] else [] := by
    intro β p f
    rw [behindAt_concat hne, List.filter_append, List.map_append]
    cases hp : p d <;> simp [hp]
  refine ⟨hstart.trans h.sectionStart, ?_, ?_, ?_, ?_⟩
  · rw [hend, h.prefixEnd, if_neg hne, if_neg (by simp [hbehind]), hbefore]
  · rw [hlate, h.lateIdbs, hfilter]
  · rw [hindex, h.index, hfilter]
  · rw [hsuffix, h.suffix, hfilter]

/-- The first packet ends the prefix. -/
theorem OpenShown.concat_first {s s' : PcapngScan} {start : ℕ} {cur : List Decoded} {d : Decoded}
    (h : OpenShown s start cur) (hnil : behind cur = []) (hd : d.isPacket)
    (hstart : s'.sectionStart = s.sectionStart)
    (hend : s'.prefixEnd = some (start + (rawBytes Decoded.raw cur).length))
    (hlate : s'.lateIdbs = s.lateIdbs)
    (hindex : s'.scan.index = s.scan.index ++
      [entryOf (start + (rawBytes Decoded.raw cur).length, d)])
    (hsuffix : s'.suffix = s.suffix) : OpenShown s' start (cur ++ [d]) := by
  obtain ⟨hbehind, hbefore⟩ := Reordercap.concat_first hnil hd
  have hat : behindAt start cur = [] := by rw [behindAt, hnil, locate_nil]
  have hat' : behindAt start (cur ++ [d]) =
      [(start + (rawBytes Decoded.raw cur).length, d)] := by
    rw [behindAt, hbehind, hbefore]
    rfl
  have hinterface := not_interface_of_packet hd
  have hother : d.isOther = false := by
    unfold Decoded.isPacket at hd
    unfold Decoded.isOther
    cases hb : d.block <;> simp [hb] at hd ⊢
  refine ⟨hstart.trans h.sectionStart, ?_, ?_, ?_, ?_⟩
  · rw [hend, if_neg (by simp [hbehind]), hbefore]
  · rw [hlate, h.lateIdbs, hat, hat']
    simp [hinterface]
  · rw [hindex, h.index, hat, hat']
    simp [hd]
  · rw [hsuffix, h.suffix, hat, hat']
    simp [hother]

/-- **A block of a section**: what `visit` makes of the variables describes the
section with that block added. -/
theorem OpenShown.visit {s s' : PcapngScan} {start : ℕ} {cur : List Decoded} {d : Decoded}
    (h : OpenShown s start cur) (hheader : d.isHeader = false)
    (hvisit : visitDecoded checks s (start + (rawBytes Decoded.raw cur).length, d) = .ok s') :
    OpenShown s' start (cur ++ [d]) ∧ s'.sections = s.sections ∧ s'.inSection = s.inSection ∧
      d.isSimple = false := by
  have hsome : s.prefixEnd.isSome = !decide (behind cur = []) := by
    rw [h.prefixEnd]
    by_cases hnil : behind cur = [] <;> simp [hnil]
  unfold visitDecoded at hvisit
  cases hb : d.block with
  | sectionHeader header => simp [Decoded.isHeader, hb] at hheader
  | simplePacket header data => simp [hb, PcapngScan.visit] at hvisit
  | interfaceDescription i =>
    have hkinds : d.isInterface = true ∧ d.isPacket = false ∧ d.isOther = false ∧
        d.isSimple = false := by
      simp [Decoded.isInterface, Decoded.isPacket, Decoded.isOther, Decoded.isSimple, hb]
    obtain ⟨hinterface, hpacket, hother, hsimple⟩ := hkinds
    simp only [hb, PcapngScan.visit, hsome, Outcome.ok.injEq] at hvisit
    by_cases hnil : behind cur = []
    · obtain rfl : s = s' := by simpa [hnil] using hvisit
      exact ⟨h.concat_prefix hnil hpacket, rfl, rfl, hsimple⟩
    · rw [if_pos (by simp [hnil])] at hvisit
      subst hvisit
      refine ⟨h.concat_behind hnil rfl rfl ?_ ?_ ?_, rfl, rfl, hsimple⟩
      · simp [hinterface, rangeOf]
      · simp [hpacket]
      · simp [hother]
  | raw type data =>
    have hkinds : d.isInterface = false ∧ d.isPacket = false ∧ d.isOther = true ∧
        d.isSimple = false := by
      simp [Decoded.isInterface, Decoded.isPacket, Decoded.isOther, Decoded.isSimple, hb]
    obtain ⟨hinterface, hpacket, hother, hsimple⟩ := hkinds
    simp only [hb, PcapngScan.visit, hsome, Outcome.ok.injEq] at hvisit
    by_cases hnil : behind cur = []
    · obtain rfl : s = s' := by simpa [hnil] using hvisit
      exact ⟨h.concat_prefix hnil hpacket, rfl, rfl, hsimple⟩
    · rw [if_pos (by simp [hnil])] at hvisit
      subst hvisit
      refine ⟨h.concat_behind hnil rfl rfl ?_ ?_ ?_, rfl, rfl, hsimple⟩
      · simp [hinterface]
      · simp [hpacket]
      · simp [hother, rangeOf]
  | enhancedPacket ep data =>
    have hkinds : d.isInterface = false ∧ d.isPacket = true ∧ d.isOther = false ∧
        d.isSimple = false := by
      simp [Decoded.isInterface, Decoded.isPacket, Decoded.isOther, Decoded.isSimple, hb]
    obtain ⟨hinterface, hpacket, hother, hsimple⟩ := hkinds
    cases hp : d.packet with
    | none => simp [hb, hp, PcapngScan.visit] at hvisit
    | some p =>
      obtain ⟨interface, timestamp⟩ := p
      simp only [hb, hp] at hvisit
      obtain ⟨scan, hpush, hvisit⟩ := Outcome.bind_eq_ok.1 hvisit
      have hindex := Scan.push_index hpush
      simp only [Outcome.pure_eq, Outcome.ok.injEq] at hvisit
      subst hvisit
      have hentry : entryOf (start + (rawBytes Decoded.raw cur).length, d) =
          ⟨timestamp, start + (rawBytes Decoded.raw cur).length, d.raw.length⟩ := by
        simp [entryOf, Decoded.timestamp, hp]
      refine ⟨?_, rfl, rfl, hsimple⟩
      by_cases hnil : behind cur = []
      · refine h.concat_first hnil hpacket rfl ?_ rfl ?_ rfl
        · have hend := h.prefixEnd
          rw [if_pos hnil] at hend
          simp [hend]
        · simp only [hentry, hindex]
      · refine h.concat_behind hnil rfl ?_ ?_ ?_ ?_
        · have hend := h.prefixEnd
          rw [if_neg hnil] at hend
          simp [hend]
        · simp [hinterface]
        · simp only [hentry, hindex, hpacket, if_true]
        · simp [hother]

/-- The variables describe the file as far as it was read: the sections that are
closed, and the blocks of the one that is open. -/
structure Shows (s : PcapngScan) (done : List (List Decoded)) (cur : List Decoded) : Prop where
  inSection : s.inSection = !cur.isEmpty
  sections : List.Forall₂ SectionShown s.sections (locate (rawBytes Decoded.raw) 0 done)
  current : OpenShown s (rawBytes Decoded.raw done.flatten).length cur
  doneSections : ∀ ds ∈ done, IsSection ds
  curSection : cur = [] ∨ IsSection cur

/-- Nothing is read. -/
theorem shows_new : Shows PcapngScan.new [] [] :=
  ⟨rfl, .nil, openShown_nil rfl rfl rfl rfl rfl, by simp, .inl rfl⟩

/-- The blocks of a further section lie behind those of the sections before it. -/
theorem locate_concat_sections (done : List (List Decoded)) (cur : List Decoded) :
    locate (rawBytes Decoded.raw) 0 (done ++ [cur]) =
      locate (rawBytes Decoded.raw) 0 done ++ [((rawBytes Decoded.raw done.flatten).length, cur)] := by
  rw [locate_append, rawBytes_flatten, Nat.zero_add]
  rfl

/-- **A section header** closes the section that is open and opens the next. -/
theorem Shows.visit_header {s s' : PcapngScan} {done : List (List Decoded)} {cur : List Decoded}
    {d : Decoded} (h : Shows s done cur) (hheader : d.isHeader)
    (hvisit : visitDecoded checks s
      ((rawBytes Decoded.raw done.flatten).length + (rawBytes Decoded.raw cur).length, d) = .ok s') :
    ∃ done', Shows s' done' [d] ∧ done'.flatten = done.flatten ++ cur := by
  obtain ⟨header, hb⟩ : ∃ header, d.block = .sectionHeader header := by
    unfold Decoded.isHeader at hheader
    cases hb : d.block <;> simp [hb] at hheader ⊢
  have hpacket := not_packet_of_header hheader
  have hsection : IsSection [d] := ⟨d, [], rfl, hheader, by simp [InSection]⟩
  have hone : ∀ {t : PcapngScan} {start : ℕ}, OpenShown t start [] → OpenShown t start [d] :=
    fun ht => ht.concat_prefix rfl hpacket
  simp only [visitDecoded, hb, PcapngScan.visit, Outcome.ok.injEq] at hvisit
  by_cases hcur : cur = []
  · have hin : s.inSection = false := by simp [h.inSection, hcur]
    have hopen := h.current
    rw [hcur] at hopen
    rw [if_neg (by simp [hin])] at hvisit
    subst hvisit
    refine ⟨done, ⟨rfl, h.sections, hone ?_, h.doneSections, .inr hsection⟩, by simp [hcur]⟩
    exact openShown_nil (by simp [hcur]) rfl hopen.lateIdbs rfl hopen.suffix
  · have hin : s.inSection = true := by simp [h.inSection, hcur]
    rw [if_pos hin] at hvisit
    subst hvisit
    refine ⟨done ++ [cur], ⟨rfl, ?_, hone ?_, ?_, .inr hsection⟩, by simp⟩
    · rw [locate_concat_sections]
      exact List.rel_append h.sections (.cons h.current.close .nil)
    · exact openShown_nil (by simp) rfl rfl rfl rfl
    · intro ds hds
      rcases List.mem_append.1 hds with hmem | hmem
      · exact h.doneSections ds hmem
      · rw [List.mem_singleton.1 hmem]
        exact h.curSection.resolve_left hcur

/-- **Any other block** joins the section that is open. -/
theorem Shows.visit {s s' : PcapngScan} {done : List (List Decoded)} {cur : List Decoded}
    {d : Decoded} (h : Shows s done cur) (hcur : IsSection cur) (hheader : d.isHeader = false)
    (hvisit : visitDecoded checks s
      ((rawBytes Decoded.raw done.flatten).length + (rawBytes Decoded.raw cur).length, d) = .ok s') :
    Shows s' done (cur ++ [d]) := by
  obtain ⟨hopen, hsections, hin, hsimple⟩ := h.current.visit hheader hvisit
  obtain ⟨first, rest, rfl, hfirst, hrest⟩ := hcur
  refine ⟨?_, by rw [hsections]; exact h.sections, hopen, h.doneSections, .inr ?_⟩
  · rw [hin, h.inSection]
    simp
  · refine ⟨first, rest ++ [d], rfl, hfirst, fun e he => ?_⟩
    rcases List.mem_append.1 he with hmem | hmem
    · exact hrest e hmem
    · rw [List.mem_singleton.1 hmem]
      exact ⟨hheader, hsimple⟩

/-- Without a section only a section header is a block. -/
theorem DecodesAt.isHeader {ctx : Context} {d : Decoded} (h : DecodesAt ctx d)
    (hnone : ctx.sectionHeader = none) : d.isHeader := by
  obtain ⟨frame, hframed, -, hparse, -⟩ := h
  have hkind := hframed.kind
  rw [hnone] at hkind
  unfold kindOf at hkind
  split_ifs at hkind
  have htype : frame.blockType = .sectionHeader := by
    simp only [Outcome.ok.injEq, Prod.mk.injEq] at hkind
    exact hkind.1.symm
  rw [parseFrame, htype] at hparse
  obtain ⟨header, -, hblock⟩ := Outcome.bind_eq_ok.1 hparse
  simp only [Outcome.pure_eq, Outcome.ok.injEq] at hblock
  simp [Decoded.isHeader, ← hblock]

/-- **A scan of a row of blocks** describes the row, as sections. -/
theorem Shows.scan {s s' : PcapngScan} {done : List (List Decoded)} {cur ds : List Decoded}
    {ctx ctx' : Context} (h : Shows s done cur) (hreads : Reads ctx ds ctx')
    (hctx : cur = [] → ctx.sectionHeader = none)
    (hscan : scanDecoded checks s (locate Decoded.raw ((rawBytes Decoded.raw done.flatten).length +
      (rawBytes Decoded.raw cur).length) ds) = .ok s') :
    ∃ done' cur', Shows s' done' cur' ∧ done'.flatten ++ cur' = done.flatten ++ cur ++ ds := by
  induction hreads generalizing s done cur with
  | nil ctx =>
    simp only [locate_nil, scanDecoded, Outcome.ok.injEq] at hscan
    subst hscan
    exact ⟨done, cur, h, by simp⟩
  | @cons ctx ctx' d ds hd _ ih =>
    rw [locate_cons, scanDecoded] at hscan
    obtain ⟨t, hvisit, hrest⟩ := Outcome.bind_eq_ok.1 hscan
    cases hheader : d.isHeader with
    | true =>
      obtain ⟨done', hshows, hdone⟩ := h.visit_header hheader hvisit
      have hpos : (rawBytes Decoded.raw done'.flatten).length + (rawBytes Decoded.raw [d]).length =
          (rawBytes Decoded.raw done.flatten).length + (rawBytes Decoded.raw cur).length +
            d.raw.length := by
        rw [hdone, rawBytes_append, List.length_append]
        simp
      obtain ⟨done'', cur'', hshows', hflat⟩ := ih hshows (by simp) (hpos ▸ hrest)
      exact ⟨done'', cur'', hshows', by rw [hflat, hdone]; simp⟩
    | false =>
      have hcur : cur ≠ [] := by
        intro hnil
        have := hd.isHeader (hctx hnil)
        rw [hheader] at this
        cases this
      have hshows := h.visit (h.curSection.resolve_left hcur) hheader hvisit
      have hpos : (rawBytes Decoded.raw done.flatten).length +
          (rawBytes Decoded.raw (cur ++ [d])).length =
          (rawBytes Decoded.raw done.flatten).length + (rawBytes Decoded.raw cur).length +
            d.raw.length := by
        rw [rawBytes_append, List.length_append, Nat.add_assoc]
        simp
      obtain ⟨done'', cur'', hshows', hflat⟩ := ih hshows (by simp) (hpos ▸ hrest)
      exact ⟨done'', cur'', hshows', by rw [hflat]; simp⟩

/-- Nothing was read when a file is opened. -/
abbrev start : Context := ⟨none, []⟩

/-- The number of blocks is bounded by the number of bytes. -/
theorem Reads.length_le {ctx ctx' : Context} {ds : List Decoded} (h : Reads ctx ds ctx') :
    ds.length ≤ (rawBytes Decoded.raw ds).length := by
  induction h with
  | nil => simp
  | cons hd _ ih =>
    have htwelve := hd.twelve_le
    rw [rawBytes_cons, List.length_append, List.length_cons]
    omega

/-- **What an accepted file is**: a row of sections, described by the scan. -/
theorem sections_of_scan {data : List UInt8} {sections : List SectionScan}
    (h : scanPcapng checks data = .ok sections) :
    ∃ (input : List (List Decoded)) (ctx' : Context), Reads start input.flatten ctx' ∧
      data = rawBytes Decoded.raw input.flatten ∧ (∀ ds ∈ input, IsSection ds) ∧
        List.Forall₂ SectionShown sections (locate (rawBytes Decoded.raw) 0 input) := by
  obtain ⟨s, hloop, hsections⟩ := Outcome.bind_eq_ok.1 h
  obtain ⟨located, hitems, hlen⟩ := exists_items_of_scan hloop
  rw [scanPcapngLoop_eq hitems hlen] at hloop
  obtain ⟨ds, ctx', rfl, hreads, hbytes⟩ := reads_of_items hitems
  have hdata : data = rawBytes Decoded.raw ds := hbytes
  obtain ⟨done, cur, hshows, hflat⟩ := shows_new.scan hreads (fun _ => rfl) hloop
  have hflat' : done.flatten ++ cur = ds := hflat
  simp only [Outcome.pure_eq, Outcome.ok.injEq] at hsections
  by_cases hcur : cur = []
  · have hin : s.inSection = false := by simp [hshows.inSection, hcur]
    rw [hin] at hsections
    simp only [Bool.false_eq_true, if_false] at hsections
    rw [hcur, List.append_nil] at hflat'
    refine ⟨done, ctx', hflat' ▸ hreads, hflat' ▸ hdata, hshows.doneSections, ?_⟩
    rw [← hsections]
    exact hshows.sections
  · have hin : s.inSection = true := by simp [hshows.inSection, hcur]
    rw [if_pos hin] at hsections
    have hflatten : (done ++ [cur]).flatten = ds := by
      rw [List.flatten_append, List.flatten_singleton, hflat']
    refine ⟨done ++ [cur], ctx', hflatten ▸ hreads, hflatten ▸ hdata, ?_, ?_⟩
    · intro es hes
      rcases List.mem_append.1 hes with hmem | hmem
      · exact hshows.doneSections es hmem
      · rw [List.mem_singleton.1 hmem]
        exact hshows.curSection.resolve_left hcur
    · have hend : data.length = (rawBytes Decoded.raw done.flatten).length +
          (rawBytes Decoded.raw cur).length := by
        rw [hdata, ← hflat', rawBytes_append, List.length_append]
      rw [← hsections, locate_concat_sections, hend]
      exact List.rel_append hshows.sections (.cons hshows.current.close .nil)

end Reordercap
end Maja
