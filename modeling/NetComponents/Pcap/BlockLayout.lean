import NetComponents.Pcap.BlockBounds

/-!
# Blocks as voipmonitor lays them out

A block holds one record for each captured packet: a record header, alignment padding, and the
captured bytes. The table of offsets is the only place that says where a record begins, and nothing
says where its captured bytes begin; both are found again from the lengths.
-/

namespace NetComponents.Pcap

open Library

/-- `pcap_block_store::header_mode` -/
inductive HeaderMode where
  | plus
  | plus2
  deriving DecidableEq, Repr

namespace HeaderMode

def hm : HeaderMode → ℕ
  | .plus => 0
  | .plus2 => 1

/-- The size of a record header of this mode. -/
def size (mode : HeaderMode) : ℕ := recordHeaderSize mode.hm

end HeaderMode

/-- A captured packet with the record header in front of it. `lengths` is the header between
`caplen` and `header_ip_offset`, and `info` is what follows these. -/
structure Captured (mode : HeaderMode) where
  ts : Timeval
  lengths : Bytes
  ipOffset : ℕ
  info : Bytes
  padding : Bytes
  bytes : Bytes
  sec_lt : ts.sec < 2 ^ 32
  usec_lt : ts.usec < 2 ^ 32
  lengths_length : lengths.length = 12
  info_length : 26 + info.length = mode.size
  ipOffset_lt : ipOffset < 2 ^ 16
  ipOffset_lt_length : ipOffset < bytes.length
  caplen_lt : bytes.length < 2 ^ 32

namespace Captured

variable {mode : HeaderMode}

def record (c : Captured mode) : Bytes :=
  le 4 c.ts.sec ++ le 4 c.ts.usec ++ le 4 c.bytes.length ++ c.lengths ++ le 2 c.ipOffset ++
    c.info ++ c.padding ++ c.bytes

/-- The offsets of records that are laid out one after the other. -/
def offsets (start : ℕ) : List (Captured mode) → List ℕ
  | [] => []
  | c :: cs => start :: offsets (start + c.record.length) cs

/-- What `Smart(DLT_RAW)` delivers for the packet on its own, from its IP header on. -/
def Delivers (c : Captured mode) (part : List Packet) : Prop :=
  Raw.packets (Smart.payload DLT_RAW) (c.bytes.drop c.ipOffset) c.ts = .ok part ∧
    ∀ packet ∈ part, packet.info.ts = c.ts

theorem record_length (c : Captured mode) :
    c.record.length = mode.size + c.padding.length + c.bytes.length := by
  have hlengths := c.lengths_length
  have hinfo := c.info_length
  simp only [record, List.length_append, length_le]
  omega

end Captured

/-- An uncompressed block of captured packets. `version`, `source` and `counters` are the fields
of the header that `parse` does not look at. -/
structure CapturedBlock where
  mode : HeaderMode
  version : Bytes
  source : Bytes
  counters : Bytes
  captured : List (Captured mode)
  version_length : version.length = 4
  source_length : source.length = 14
  counters_length : counters.length = 17
  captured_ne : captured ≠ []
  size_lt : (captured.flatMap Captured.record).length < 2 ^ 32

namespace CapturedBlock

variable (b : CapturedBlock)

def data : Bytes := b.captured.flatMap Captured.record

def offsets : List ℕ := Captured.offsets 0 b.captured

/-- The `pcap_block_store_header`. -/
def header : Bytes :=
  headerString ++ b.version ++ le 4 b.data.length ++ le 4 0 ++ le 4 b.captured.length ++
    b.source ++ le 1 b.mode.hm ++ b.counters

def bytes : Bytes := b.header ++ b.offsets.flatMap (le 4) ++ b.data

end CapturedBlock

namespace Captured

variable {mode : HeaderMode} (c : Captured mode)

theorem mode_size_pos (mode : HeaderMode) : 34 ≤ mode.size := by
  cases mode <;> decide

/-- What precedes the captured bytes, and these. -/
theorem drop_record (n : ℕ) :
    c.record.drop (mode.size + c.padding.length + n) = c.bytes.drop n := by
  have hfront : (le 4 c.ts.sec ++ le 4 c.ts.usec ++ le 4 c.bytes.length ++ c.lengths ++
      le 2 c.ipOffset ++ c.info ++ c.padding).length = mode.size + c.padding.length := by
    have hlengths := c.lengths_length
    have hinfo := c.info_length
    simp only [List.length_append, length_le]
    omega
  rw [record, ← hfront, ← List.drop_drop, List.drop_left]

section Fields

theorem readNat_sec : readNat c.record 0 4 = .ok c.ts.sec :=
  readNat_field (a := []) (c := le 4 c.ts.usec ++ le 4 c.bytes.length ++ c.lengths ++
    le 2 c.ipOffset ++ c.info ++ c.padding ++ c.bytes)
    (by simp [record, List.append_assoc]) rfl c.sec_lt

theorem readNat_usec : readNat c.record 4 4 = .ok c.ts.usec :=
  readNat_field (a := le 4 c.ts.sec) (c := le 4 c.bytes.length ++ c.lengths ++
    le 2 c.ipOffset ++ c.info ++ c.padding ++ c.bytes)
    (by simp [record, List.append_assoc]) (by simp) c.usec_lt

theorem readNat_caplen : readNat c.record 8 4 = .ok c.bytes.length :=
  readNat_field (a := le 4 c.ts.sec ++ le 4 c.ts.usec) (c := c.lengths ++
    le 2 c.ipOffset ++ c.info ++ c.padding ++ c.bytes)
    (by simp [record, List.append_assoc]) (by simp) c.caplen_lt

theorem readNat_ipOffset : readNat c.record 24 2 = .ok c.ipOffset :=
  readNat_field
    (a := le 4 c.ts.sec ++ le 4 c.ts.usec ++ le 4 c.bytes.length ++ c.lengths)
    (c := c.info ++ c.padding ++ c.bytes)
    (by simp [record, List.append_assoc]) (by simp [c.lengths_length]) c.ipOffset_lt

end Fields

/-- The captured bytes are found from behind, and the IP header in them. -/
theorem recordPayload_record :
    recordPayload c.record mode.hm {} =
      Smart.payload DLT_RAW (c.bytes.drop c.ipOffset) { ts := c.ts } >>= fun found =>
        .ok (mode.size + c.padding.length + c.ipOffset + found.1, found.2) := by
  have hlength := c.record_length
  have hsize := mode_size_pos mode
  have hip := c.ipOffset_lt_length
  have hcap : c.record.length - c.bytes.length + c.ipOffset =
      mode.size + c.padding.length + c.ipOffset := by omega
  have hmode : recordHeaderSize mode.hm < c.record.length := by
    change mode.size < c.record.length
    omega
  have hcaptured : slice c.record (mode.size + c.padding.length + c.ipOffset)
      (c.bytes.length - c.ipOffset) = c.bytes.drop c.ipOffset := by
    rw [slice, c.drop_record, List.take_of_length_le]
    rw [List.length_drop]
  unfold recordPayload
  simp only [hmode, if_true, c.readNat_caplen, c.readNat_ipOffset, c.readNat_sec, c.readNat_usec,
    ok_bind]
  rw [if_pos (by omega), minus_ok (by omega), ok_bind, hcap, if_pos (by omega),
    minus_ok (by omega), ok_bind, read_ok (by omega), ok_bind, hcaptured]
  rfl

variable {c}

/-- What is emitted for the record is what `Smart` delivers for the packet. -/
theorem delivers_of_emits {part : List Packet} (h : Emits mode.hm c.record part) :
    c.Delivers part := by
  obtain ⟨p, info, hpayload, rfl⟩ := h
  rw [recordPayload_record] at hpayload
  obtain ⟨⟨q, info'⟩, hsmart, hfound⟩ := bind_ok_iff.mp hpayload
  cases hfound
  have htime : info'.ts = c.ts := (Smart.payload_gives DLT_RAW).keepsTime _ _ _ _ hsmart
  have hlength := c.record_length
  have hip := c.ipOffset_lt_length
  have hdrop : c.record.drop (mode.size + c.padding.length + c.ipOffset + q) =
      (c.bytes.drop c.ipOffset).drop q := by
    rw [Nat.add_assoc, c.drop_record, List.drop_drop]
  have hinside : mode.size + c.padding.length + c.ipOffset + q < c.record.length ↔
      q < (c.bytes.drop c.ipOffset).length := by
    rw [List.length_drop]
    omega
  constructor
  · unfold Raw.packets
    rw [hsmart, ok_bind]
    simp only [hinside, hdrop]
    split <;> rfl
  · intro packet hpacket
    split at hpacket
    · obtain rfl := List.mem_singleton.mp hpacket
      exact htime
    · cases hpacket

end Captured

namespace Captured

variable {mode : HeaderMode}

theorem offsets_length (start : ℕ) (cs : List (Captured mode)) :
    (offsets start cs).length = cs.length := by
  induction cs generalizing start with
  | nil => rfl
  | cons c cs ih => rw [offsets, List.length_cons, ih, List.length_cons]

theorem record_length_pos (c : Captured mode) : 0 < c.record.length := by
  have hlength := c.record_length
  have hip := c.ipOffset_lt_length
  omega

theorem length_le_records (cs : List (Captured mode)) :
    cs.length ≤ (cs.flatMap record).length := by
  induction cs with
  | nil => exact le_rfl
  | cons c cs ih =>
    have hpos := c.record_length_pos
    rw [List.flatMap_cons, List.length_append, List.length_cons]
    omega

theorem offsets_bounds {start : ℕ} {cs : List (Captured mode)} :
    ∀ offset ∈ offsets start cs, start ≤ offset ∧ offset < start + (cs.flatMap record).length := by
  induction cs generalizing start with
  | nil => simp [offsets]
  | cons c cs ih =>
    have hpos := c.record_length_pos
    intro offset hoffset
    rw [List.flatMap_cons, List.length_append]
    rcases List.mem_cons.mp hoffset with rfl | hoffset
    · omega
    · have := ih offset hoffset
      omega

theorem offsets_ascending (start : ℕ) (cs : List (Captured mode)) :
    (offsets start cs).Pairwise (· ≤ ·) := by
  induction cs generalizing start with
  | nil => exact .nil
  | cons c cs ih =>
    refine List.pairwise_cons.mpr ⟨?_, ih _⟩
    intro offset hoffset
    have := offsets_bounds offset hoffset
    omega

/-- The record sizes that are derived from the offsets are those of the records. -/
theorem recordSlices_offsets (before : Bytes) (cs : List (Captured mode)) :
    recordSlices (before ++ cs.flatMap record) (offsets before.length cs) = cs.map record := by
  induction cs generalizing before with
  | nil => rfl
  | cons c cs ih =>
    have hend : (offsets (before.length + c.record.length) cs).headD
        (before ++ (c :: cs).flatMap record).length = before.length + c.record.length := by
      cases cs with
      | nil => simp [offsets]
      | cons c' cs => rfl
    have hfirst : slice (before ++ (c :: cs).flatMap record) before.length c.record.length =
        c.record := by
      rw [slice, List.drop_left, List.flatMap_cons, List.take_left]
    have hrest := ih (before ++ c.record)
    rw [List.append_assoc, ← List.flatMap_cons, List.length_append] at hrest
    rw [offsets, recordSlices, recordSpans_cons, List.map_cons, hend, Nat.add_sub_cancel_left,
      hfirst, List.map_cons, ← hrest]
    rfl

end Captured

theorem checkOffsets_ascending {lastOffset : ℕ} {offsets : List ℕ}
    (h : (lastOffset :: offsets).Pairwise (· ≤ ·)) :
    ∃ last ∈ lastOffset :: offsets, checkOffsets lastOffset offsets = .ok last := by
  induction offsets generalizing lastOffset with
  | nil => exact ⟨lastOffset, by simp, rfl⟩
  | cons offset offsets ih =>
    obtain ⟨last, hlast, hcheck⟩ := ih h.of_cons
    have hle : lastOffset ≤ offset := (List.pairwise_cons.mp h).1 offset (by simp)
    refine ⟨last, List.mem_cons_of_mem _ hlast, ?_⟩
    rw [checkOffsets, if_neg (by omega), hcheck]

theorem length_table (offsets : List ℕ) :
    (offsets.flatMap (le 4)).length = 4 * offsets.length := by
  induction offsets with
  | nil => rfl
  | cons offset offsets ih =>
    rw [List.flatMap_cons, List.length_append, length_le, ih, List.length_cons]
    omega

/-- The table of offsets is read back. -/
theorem readOffsets_table {payload before after : Bytes} {i : ℕ} {offsets : List ℕ}
    (h : payload = before ++ (offsets.flatMap (le 4) ++ after))
    (hbefore : before.length = hdrSize + 4 * i) (hlt : ∀ offset ∈ offsets, offset < 2 ^ 32) :
    readOffsets payload i offsets.length = .ok offsets := by
  induction offsets generalizing before i with
  | nil => rfl
  | cons offset offsets ih =>
    rw [List.flatMap_cons, List.append_assoc] at h
    have hfirst : readNat payload (hdrSize + 4 * i) 4 = .ok offset :=
      readNat_field h hbefore (hlt offset (by simp))
    have hnext : payload = (before ++ le 4 offset) ++ (offsets.flatMap (le 4) ++ after) := by
      rw [h, List.append_assoc]
    have hrest := ih hnext (i := i + 1) (by rw [List.length_append, length_le]; omega)
      (fun o ho => hlt o (by simp [ho]))
    rw [List.length_cons, readOffsets, hfirst, hrest]
    rfl

namespace CapturedBlock

variable (b : CapturedBlock)

theorem header_length : b.header.length = hdrSize := by
  have hversion := b.version_length
  have hsource := b.source_length
  have hcounters := b.counters_length
  simp only [header, headerString, hdrSize, List.length_append, length_le, List.length_map,
    List.length_cons, List.length_nil]
  omega

theorem bytes_length : b.bytes.length = hdrSize + 4 * b.captured.length + b.data.length := by
  rw [bytes, List.length_append, List.length_append, header_length, length_table, offsets,
    Captured.offsets_length]

theorem captured_length_le : b.captured.length ≤ b.data.length :=
  Captured.length_le_records b.captured

theorem captured_length_pos : 0 < b.captured.length :=
  List.length_pos_of_ne_nil b.captured_ne

section Fields

theorem read_title : read b.bytes 0 16 = .ok headerString :=
  read_field (a := []) (c := b.version ++ le 4 b.data.length ++ le 4 0 ++
    le 4 b.captured.length ++ b.source ++ le 1 b.mode.hm ++ b.counters ++
    b.offsets.flatMap (le 4) ++ b.data) (by simp [bytes, header]) rfl rfl

theorem readNat_size : readNat b.bytes 20 4 = .ok b.data.length :=
  readNat_field (a := headerString ++ b.version) (c := le 4 0 ++ le 4 b.captured.length ++
    b.source ++ le 1 b.mode.hm ++ b.counters ++ b.offsets.flatMap (le 4) ++ b.data)
    (by simp [bytes, header]) (by simp [headerString, b.version_length]) b.size_lt

theorem readNat_sizeCompress : readNat b.bytes 24 4 = .ok 0 :=
  readNat_field (a := headerString ++ b.version ++ le 4 b.data.length)
    (c := le 4 b.captured.length ++ b.source ++ le 1 b.mode.hm ++ b.counters ++
      b.offsets.flatMap (le 4) ++ b.data)
    (by simp [bytes, header]) (by simp [headerString, b.version_length]) (by decide)

theorem readNat_count : readNat b.bytes 28 4 = .ok b.captured.length :=
  readNat_field (a := headerString ++ b.version ++ le 4 b.data.length ++ le 4 0)
    (c := b.source ++ le 1 b.mode.hm ++ b.counters ++ b.offsets.flatMap (le 4) ++ b.data)
    (by simp [bytes, header]) (by simp [headerString, b.version_length])
    (b.captured_length_le.trans_lt b.size_lt)

theorem readNat_hm : readNat b.bytes 46 1 = .ok b.mode.hm :=
  readNat_field (a := headerString ++ b.version ++ le 4 b.data.length ++ le 4 0 ++
      le 4 b.captured.length ++ b.source)
    (c := b.counters ++ b.offsets.flatMap (le 4) ++ b.data)
    (by simp [bytes, header]) (by simp [headerString, b.version_length, b.source_length])
    (by cases b.mode <;> decide)

end Fields

theorem read_header : BlockHeader.read b.bytes = .ok ⟨b.captured.length, b.data.length, 0⟩ := by
  have hcount := b.captured_length_pos
  have hsize := b.captured_length_le
  unfold BlockHeader.read
  rw [b.read_title, ok_bind, if_neg (by simp), b.readNat_count, ok_bind, if_neg (by omega),
    b.readNat_sizeCompress, b.readNat_size]
  simp only [ok_bind, BlockHeader.dataSize]
  rw [if_neg (by simp only [ne_eq, not_true_eq_false, if_false]; omega)]
  rfl

/-- Decoding the block finds the records, one by one. -/
theorem decodeBlock_bytes (snappy : Snappy) :
    ∃ parts, decodeBlock snappy b.bytes ⟨b.captured.length, b.data.length, 0⟩ =
        .ok parts.flatten ∧
      List.Forall₂ (Emits b.mode.hm) (b.captured.map Captured.record) parts := by
  have hbounds : ∀ o ∈ b.offsets, o < b.data.length := by
    intro o ho
    have := (Captured.offsets_bounds o ho).2
    rwa [Nat.zero_add] at this
  have hascending : b.offsets.Pairwise (· ≤ ·) := Captured.offsets_ascending 0 b.captured
  have htable : readOffsets b.bytes 0 b.captured.length = .ok b.offsets := by
    have hjoin : b.bytes = b.header ++ (b.offsets.flatMap (le 4) ++ b.data) :=
      List.append_assoc _ _ _
    rw [← Captured.offsets_length 0 b.captured]
    exact readOffsets_table hjoin b.header_length fun o ho => (hbounds o ho).trans b.size_lt
  obtain ⟨last, hlast, hcheck⟩ := checkOffsets_ascending
    (List.pairwise_cons.mpr ⟨fun o _ => Nat.zero_le o, hascending⟩)
  have hlast_lt : last < b.data.length := by
    have hpos := b.captured_length_pos
    have hle := b.captured_length_le
    rcases List.mem_cons.mp hlast with rfl | hlast
    · omega
    · exact hbounds last hlast
  have hdata : read b.bytes (hdrSize + b.captured.length * 4) b.data.length = .ok b.data := by
    refine read_field (a := b.header ++ b.offsets.flatMap (le 4)) (c := []) (by simp [bytes]) ?_ rfl
    have hlength := b.bytes_length
    rw [bytes, List.length_append] at hlength
    omega
  obtain ⟨parts, hparts, hemits⟩ :=
    blockPackets_emits b.mode.hm hascending hbounds
  have hrecords : recordSlices b.data b.offsets = b.captured.map Captured.record :=
    Captured.recordSlices_offsets [] b.captured
  rw [hrecords] at hemits
  refine ⟨parts, ?_, hemits⟩
  unfold decodeBlock
  simp only [BlockHeader.offsetsSize, BlockHeader.dataSize]
  rw [htable, ok_bind, hcheck, ok_bind, if_neg (by omega), if_neg (by simp), hdata, ok_bind,
    b.readNat_hm, ok_bind, if_neg (by omega), hparts]

/-- From a state that awaits a block, the whole block is parsed as what `Smart` delivers for its
packets, in order. -/
theorem parse_bytes (snappy : Snappy) {r : Reassembler} (hstate : r.state ≠ .readBody) :
    ∃ parts, Reassembler.parse snappy r b.bytes =
        .ok ({ r with state := .readHeader }, parts.flatten) ∧
      List.Forall₂ Captured.Delivers b.captured parts := by
  obtain ⟨parts, hdecode, hemits⟩ := b.decodeBlock_bytes snappy
  refine ⟨parts, ?_, ?_⟩
  · have hlong : hdrSize ≤ b.bytes.length := by
      rw [bytes_length]
      omega
    rw [Reassembler.parse_start snappy hstate hlong, Reassembler.parseHeader, b.read_header,
      ok_bind, if_neg ?_, hdecode]
    · rfl
    · simp only [BlockHeader.total, BlockHeader.offsetsSize, BlockHeader.dataSize, bytes_length]
      simp
      omega
  · rw [List.forall₂_map_left_iff] at hemits
    exact hemits.imp fun _ _ => Captured.delivers_of_emits

/-- Two packets with an Ethernet header: an IPv4 packet with one byte of payload behind some
padding, and a frame that is too short. -/
def twoCaptured : CapturedBlock where
  mode := .plus2
  version := List.replicate 4 5
  source := List.replicate 14 6
  counters := List.replicate 17 7
  captured := [
    { ts := ⟨1, 2⟩
      lengths := List.replicate 12 0
      ipOffset := 14
      info := List.replicate 32 0
      padding := [0, 0, 0]
      bytes := List.replicate 14 0 ++ [0x45] ++ List.replicate 19 0 ++ [7]
      sec_lt := by decide
      usec_lt := by decide
      lengths_length := rfl
      info_length := rfl
      ipOffset_lt := by decide
      ipOffset_lt_length := by decide
      caplen_lt := by decide },
    { ts := ⟨3, 4⟩
      lengths := List.replicate 12 0
      ipOffset := 14
      info := List.replicate 32 0
      padding := []
      bytes := List.replicate 15 0
      sec_lt := by decide
      usec_lt := by decide
      lengths_length := rfl
      info_length := rfl
      ipOffset_lt := by decide
      ipOffset_lt_length := by decide
      caplen_lt := by decide }]
  version_length := rfl
  source_length := rfl
  counters_length := rfl
  captured_ne := by simp
  size_lt := by decide +kernel

theorem parse_bytes_two :
    ∃ parts, Reassembler.parse (fun _ _ => .other) .fresh twoCaptured.bytes =
        .ok ({ Reassembler.fresh with state := .readHeader }, parts.flatten) ∧
      List.Forall₂ Captured.Delivers twoCaptured.captured parts :=
  twoCaptured.parse_bytes _ (by decide)

end CapturedBlock

end NetComponents.Pcap
