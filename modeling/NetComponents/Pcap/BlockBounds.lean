import NetComponents.Pcap.BlockStream

/-!
# The bounds of a hostile block

Once the size of a block is checked, the offsets are in ascending order below `hdr->size`, and the
data has that size, whether it was compressed or not. So each record lies between its offset and
the next one, or the end of the data, and what it yields is an end of its own bytes.
-/

namespace NetComponents.Pcap

open Library

variable (snappy : Snappy)

/-- The offset of each record, with the next one or the end of the data. -/
def recordSpans (size : ℕ) (offsets : List ℕ) : List (ℕ × ℕ) :=
  offsets.zip (offsets.tail ++ [size])

def recordSlices (data : Bytes) (offsets : List ℕ) : List Bytes :=
  (recordSpans data.length offsets).map fun span => slice data span.1 (span.2 - span.1)

/-- The table of offsets and the data of a block of `payload` with the header `h`. The data are
the block's own bytes, or what snappy makes of them. -/
structure BlockData (payload : Bytes) (h : BlockHeader) (offsets : List ℕ) (data : Bytes) :
    Prop where
  table : readOffsets payload 0 h.count = .ok offsets
  ascending : offsets.Pairwise (· ≤ ·)
  below : ∀ offset ∈ offsets, offset < h.size
  size : data.length = h.size
  source : data = slice payload (hdrSize + h.offsetsSize) h.dataSize ∨
    snappy (slice payload (hdrSize + h.offsetsSize) h.dataSize) (h.size + 1) = .ok data

/-- What `packets` appends for one record. -/
def Emits (hm : ℕ) (record : Bytes) (part : List Packet) : Prop :=
  ∃ p info, recordPayload record hm {} = .ok (p, info) ∧
    part = if p < record.length then [⟨record.drop p, info⟩] else []

section Header

theorem BlockHeader.read_compress {payload : Bytes} {h : BlockHeader}
    (hread : BlockHeader.read payload = .ok h) : h.sizeCompress ≤ h.size := by
  unfold BlockHeader.read at hread
  obtain ⟨title, -, hread⟩ := bind_ok_iff.mp hread
  split at hread
  · cases hread
  · obtain ⟨count, -, hread⟩ := bind_ok_iff.mp hread
    split at hread
    · cases hread
    · obtain ⟨sizeCompress, -, hread⟩ := bind_ok_iff.mp hread
      obtain ⟨size, -, hread⟩ := bind_ok_iff.mp hread
      simp only at hread
      split at hread
      · cases hread
      · rename_i hsizes
        cases hread
        simp only
        omega

/-- Data that are not compressed have the size of the header. -/
theorem BlockHeader.dataSize_eq {h : BlockHeader} (hcompress : h.sizeCompress ≤ h.size)
    (hplain : h.size ≤ h.dataSize) : h.dataSize = h.size := by
  unfold BlockHeader.dataSize at hplain ⊢
  split at hplain
  · rename_i hcompressed
    rw [if_pos hcompressed]
    omega
  · rename_i hzero
    rw [if_neg hzero]

theorem readOffsets_length {payload : Bytes} {i count : ℕ} {offsets : List ℕ}
    (h : readOffsets payload i count = .ok offsets) : offsets.length = count := by
  induction count generalizing i offsets with
  | zero =>
    cases h
    rfl
  | succ count ih =>
    obtain ⟨offset, -, h⟩ := bind_ok_iff.mp h
    obtain ⟨rest, hrest, h⟩ := bind_ok_iff.mp h
    cases h
    rw [List.length_cons, ih hrest]

end Header

section Spans

variable {size offset : ℕ} {offsets : List ℕ}

theorem recordSpans_cons (size offset : ℕ) (offsets : List ℕ) :
    recordSpans size (offset :: offsets) =
      (offset, offsets.headD size) :: recordSpans size offsets := by
  cases offsets <;> rfl

theorem recordSpans_inside (hascending : offsets.Pairwise (· ≤ ·))
    (hbelow : ∀ o ∈ offsets, o < size) :
    ∀ span ∈ recordSpans size offsets, span.1 ≤ span.2 ∧ span.2 ≤ size := by
  induction offsets with
  | nil => simp [recordSpans]
  | cons offset offsets ih =>
    have hrest := ih hascending.of_cons fun o ho => hbelow o (by simp [ho])
    rw [recordSpans_cons]
    intro span hspan
    rcases List.mem_cons.mp hspan with rfl | hspan
    · exact recordEnd_inside hascending hbelow
    · exact hrest span hspan

end Spans

theorem recordPackets_emits {data : Bytes} {offset pktSize : ℕ} (hm : ℕ)
    (h : offset + pktSize ≤ data.length) :
    ∃ part, recordPackets data offset pktSize hm = .ok part ∧
      Emits hm (slice data offset pktSize) part := by
  obtain ⟨⟨p, info⟩, hpayload⟩ := recordPayload_ok (slice data offset pktSize) hm {}
  unfold recordPackets
  rw [if_pos h, read_ok h, ok_bind, hpayload, ok_bind]
  refine ⟨if p < pktSize then [⟨(slice data offset pktSize).drop p, info⟩] else [], ?_,
    p, info, hpayload, ?_⟩
  · simp only [pure_ok]
    split <;> rfl
  · rw [length_slice h]

/-- Every record between ascending offsets is looked at, in order. -/
theorem blockPackets_emits {data : Bytes} {offsets : List ℕ} (hm : ℕ)
    (hascending : offsets.Pairwise (· ≤ ·)) (hbelow : ∀ o ∈ offsets, o < data.length) :
    ∃ parts, blockPackets data hm offsets = .ok parts.flatten ∧
      List.Forall₂ (Emits hm) (recordSlices data offsets) parts := by
  induction offsets with
  | nil => exact ⟨[], rfl, .nil⟩
  | cons offset offsets ih =>
    have hend := recordEnd_inside hascending hbelow
    obtain ⟨parts, hparts, hemits⟩ :=
      ih hascending.of_cons fun o ho => hbelow o (by simp [ho])
    obtain ⟨part, hpart, hemit⟩ := recordPackets_emits hm
      (by omega : offset + (offsets.headD data.length - offset) ≤ data.length)
    refine ⟨part :: parts, ?_, ?_⟩
    · rw [blockPackets, packetSize_ok hend.1, ok_bind, hpart, ok_bind, hparts]
      rfl
    · rw [recordSlices, recordSpans_cons, List.map_cons]
      exact .cons hemit hemits

theorem decodeBlock_data {payload : Bytes} {h : BlockHeader} {ps : List Packet}
    (hread : BlockHeader.read payload = .ok h) (htotal : h.total ≤ payload.length)
    (hdecode : decodeBlock snappy payload h = .ok ps) :
    ∃ offsets data hm, BlockData snappy payload h offsets data ∧
      readNat payload 46 1 = .ok hm ∧ blockPackets data hm offsets = .ok ps := by
  have hcompress := BlockHeader.read_compress hread
  unfold decodeBlock at hdecode
  obtain ⟨offsets, hoffsets, hdecode⟩ := bind_ok_iff.mp hdecode
  obtain ⟨lastOffset, hcheck, hdecode⟩ := bind_ok_iff.mp hdecode
  obtain ⟨hascending, -, hlast⟩ := checkOffsets_ok hcheck
  split at hdecode
  · cases hdecode
  · rename_i hsize
    obtain ⟨data, hdata, hdecode⟩ := bind_ok_iff.mp hdecode
    obtain ⟨hm, hhm, hdecode⟩ := bind_ok_iff.mp hdecode
    rw [read_ok (by unfold BlockHeader.total at htotal; omega)] at hdata
    cases hdata
    have hbelow : ∀ offset ∈ offsets, offset < h.size := by
      intro offset hoffset
      have := hlast offset hoffset
      omega
    split at hdecode
    · obtain ⟨tmpbuf, htmpbuf, hdecode⟩ := bind_ok_iff.mp hdecode
      obtain ⟨hsnappy, hlength⟩ := decompress_ok snappy htmpbuf
      exact ⟨offsets, tmpbuf, hm, ⟨hoffsets, hascending, hbelow, hlength, .inr hsnappy⟩, hhm,
        hdecode⟩
    · -- the compressed size is none, or it is the size
      rename_i hplain
      refine ⟨offsets, _, hm,
        ⟨hoffsets, hascending, hbelow, ?_, .inl rfl⟩, hhm, hdecode⟩
      rw [length_slice (by unfold BlockHeader.total at htotal; omega)]
      exact BlockHeader.dataSize_eq hcompress (by omega)

theorem readOffsets_append {a : Bytes} (b : Bytes) {i count : ℕ}
    (h : hdrSize + 4 * (i + count) ≤ a.length) :
    readOffsets (a ++ b) i count = readOffsets a i count := by
  induction count generalizing i with
  | zero => rfl
  | succ count ih =>
    unfold readOffsets
    rw [readNat_append_left b (by omega), ih (by omega)]

/-- What follows a block is not looked at. -/
theorem decodeBlock_append {a : Bytes} (b : Bytes) {h : BlockHeader} (htotal : h.total ≤ a.length) :
    decodeBlock snappy (a ++ b) h = decodeBlock snappy a h := by
  have hsize : hdrSize + h.offsetsSize + h.dataSize ≤ a.length := htotal
  have hlong : hdrSize = 64 := rfl
  have htable : hdrSize + 4 * (0 + h.count) ≤ a.length := by
    unfold BlockHeader.offsetsSize at hsize
    omega
  unfold decodeBlock
  rw [readOffsets_append b htable, read_append_left b (by omega),
    readNat_append_left b (by omega)]

theorem Reassembler.parse_complete {r : Reassembler} {payload : Bytes} {h : BlockHeader}
    (hstate : r.state = .readHeader) (hread : BlockHeader.read payload = .ok h)
    (htotal : h.total ≤ payload.length) :
    parse snappy r payload = decodeBlock snappy payload h >>= fun ps => .ok (r, ps) := by
  unfold parse
  rw [hstate]
  simp only [parseHeader]
  rw [hread, ok_bind, if_neg (by omega)]
  rfl

theorem recordSlices_length (data : Bytes) (offsets : List ℕ) :
    (recordSlices data offsets).length = offsets.length := by
  simp only [recordSlices, recordSpans, List.length_map, List.length_zip, List.length_append,
    List.length_tail, List.length_cons, List.length_nil]
  omega

/-- One packet at most for each record, which is an end of it. -/
def EndOf (record : Bytes) (part : List Packet) : Prop :=
  part = [] ∨ ∃ packet : Packet, part = [packet] ∧ packet.data ≠ [] ∧ packet.data <:+ record

theorem Emits.endOf {hm : ℕ} {record : Bytes} {part : List Packet} (h : Emits hm record part) :
    EndOf record part := by
  obtain ⟨p, info, -, rfl⟩ := h
  split
  · rename_i hp
    exact .inr ⟨_, rfl, List.ne_nil_of_length_pos (by rw [List.length_drop]; omega),
      List.drop_suffix p record⟩
  · exact .inl rfl

theorem length_flatten_le {records : List Bytes} {parts : List (List Packet)}
    (h : List.Forall₂ EndOf records parts) : parts.flatten.length ≤ records.length := by
  induction h with
  | nil => exact le_rfl
  | @cons record part records parts hpart _ ih =>
    have hone : part.length ≤ 1 := by
      rcases hpart with rfl | ⟨packet, rfl, -⟩
      · exact Nat.zero_le 1
      · exact le_rfl
    rw [List.flatten_cons, List.length_append, List.length_cons]
    omega

/-- A complete block, however hostile. The accesses of `parse` stay inside of the block's own bytes,
and no difference of sizes is negative, or else `parse` would stop with another error than an
exception; what follows the block is not looked at. What is decoded lies between the offsets of the
table, in order, in data of the size that the header gives, and each record yields nothing, or one
packet that is an end of it and not empty. -/
theorem Reassembler.parse_block_inside {r : Reassembler} {payload : Bytes} {h : BlockHeader}
    (hstate : r.state = .readHeader) (hread : BlockHeader.read payload = .ok h)
    (htotal : h.total ≤ payload.length) :
    Contained (parse snappy r (payload.take h.total)) ∧
      parse snappy r payload = parse snappy r (payload.take h.total) ∧
      ∀ r' ps, parse snappy r payload = .ok (r', ps) →
        ∃ offsets data parts, BlockData snappy payload h offsets data ∧
          (∀ span ∈ recordSpans data.length offsets,
            span.1 ≤ span.2 ∧ span.2 ≤ data.length) ∧
          ps = parts.flatten ∧
          List.Forall₂ EndOf (recordSlices data offsets) parts ∧
          ps.length ≤ h.count := by
  have hlong : (payload.take h.total).length = h.total := List.length_take_of_le htotal
  have hown : BlockHeader.read (payload.take h.total) = .ok h := by
    rw [← BlockHeader.read_append (payload.drop h.total)
      (by have := hdrSize_le_total h; omega), List.take_append_drop, hread]
  have hcontained : Contained (parse snappy r (payload.take h.total)) := by
    rw [parse_complete snappy hstate hown hlong.ge]
    exact (decodeBlock_contained snappy hlong.ge).bind fun ps _ => contained_ok _
  have hsame : parse snappy r payload = parse snappy r (payload.take h.total) := by
    rw [parse_complete snappy hstate hown hlong.ge, parse_complete snappy hstate hread htotal,
      ← decodeBlock_append snappy (payload.drop h.total) hlong.ge, List.take_append_drop]
  refine ⟨hcontained, hsame, ?_⟩
  intro r' ps hparse
  rw [parse_complete snappy hstate hread htotal] at hparse
  obtain ⟨ps, hdecode, hps⟩ := bind_ok_iff.mp hparse
  cases hps
  obtain ⟨offsets, data, hm, hdata, -, hpackets⟩ :=
    decodeBlock_data snappy hread htotal hdecode
  have hbelow : ∀ o ∈ offsets, o < data.length := by
    rw [hdata.size]
    exact hdata.below
  obtain ⟨parts, hparts, hemits⟩ := blockPackets_emits hm hdata.ascending hbelow
  cases hpackets.symm.trans hparts
  have hends : List.Forall₂ EndOf (recordSlices data offsets) parts :=
    hemits.imp fun _ _ => Emits.endOf
  refine ⟨offsets, data, parts, hdata, recordSpans_inside hdata.ascending hbelow, rfl, hends, ?_⟩
  have hcount := length_flatten_le hends
  rwa [recordSlices_length, readOffsets_length hdata.table] at hcount

/-- A block of 123 bytes with a record of 55, and a byte behind it. -/
theorem Reassembler.parse_block_inside_one :
    Contained (parse (fun _ _ => .other) reset ((blockBytes [0] oneRecord ++ [9]).take 123)) ∧
      ∀ r' ps, parse (fun _ _ => .other) reset (blockBytes [0] oneRecord ++ [9]) = .ok (r', ps) →
        ps.length ≤ 1 := by
  have hread : BlockHeader.read (blockBytes [0] oneRecord ++ [9]) = .ok ⟨1, 55, 0⟩ := by
    decide +kernel
  have hinside := parse_block_inside (fun _ _ => .other) (show reset.state = .readHeader from rfl)
    hread (by decide +kernel)
  refine ⟨hinside.1, ?_⟩
  intro r' ps hparse
  obtain ⟨offsets, data, parts, -, -, -, -, hcount⟩ := hinside.2.2 r' ps hparse
  exact hcount

end NetComponents.Pcap
