import NetComponents.Pcap.VoIP

/-!
# Streams of blocks

A complete block is decoded without looking outside its bytes, and its header is
already fixed by the first segment. While a reassembler is in `kREAD_BODY` it
holds the received part of one block; the segment that completes the block
delivers its packets and empties the buffer, unless no record of the block
yields a packet.
-/

namespace NetComponents.Pcap

open Library

/-- The bytes of an uncompressed block in the mode `plus`. -/
def blockBytes (offsets : List ℕ) (data : Bytes) : Bytes :=
  headerString ++ le 4 6 ++ le 4 data.length ++ le 4 0 ++ le 4 offsets.length ++
    List.replicate 32 0 ++ offsets.flatMap (le 4) ++ data

variable (snappy : Snappy)

section Decoding

theorem BlockHeader.read_contained {payload : Bytes} (h : 32 ≤ payload.length) :
    Contained (BlockHeader.read payload) := by
  unfold BlockHeader.read
  rw [read_ok (by omega), readNat_ok (by omega), readNat_ok (by omega), readNat_ok (by omega)]
  simp only [ok_bind, pure_ok]
  split_ifs
  · exact contained_throw _
  · exact contained_throw _
  · exact contained_throw _
  · exact contained_ok _

/-- The header is fixed by the first 32 bytes. -/
theorem BlockHeader.read_append {a : Bytes} (b : Bytes) (h : 32 ≤ a.length) :
    BlockHeader.read (a ++ b) = BlockHeader.read a := by
  unfold BlockHeader.read
  rw [read_append_left b (by omega), readNat_append_left b (by omega),
    readNat_append_left b (by omega), readNat_append_left b (by omega)]

theorem hdrSize_le_total (h : BlockHeader) : 64 ≤ h.total := by
  unfold BlockHeader.total hdrSize
  omega

theorem readOffsets_ok (payload : Bytes) (i count : ℕ)
    (h : hdrSize + 4 * (i + count) ≤ payload.length) :
    ∃ offsets, readOffsets payload i count = .ok offsets := by
  induction count generalizing i with
  | zero => exact ⟨[], rfl⟩
  | succ count ih =>
    obtain ⟨offsets, hoffsets⟩ := ih (i + 1) (by omega)
    unfold readOffsets
    rw [readNat_ok (by omega), hoffsets]
    exact ⟨_, rfl⟩

theorem checkOffsets_contained (lastOffset : ℕ) (offsets : List ℕ) :
    Contained (checkOffsets lastOffset offsets) := by
  induction offsets generalizing lastOffset with
  | nil => exact contained_ok _
  | cons offset offsets ih =>
    unfold checkOffsets
    split_ifs
    · exact contained_throw _
    · exact ih offset

theorem decompress_contained (data : Bytes) (maxSize : ℕ) :
    Contained (decompress snappy data maxSize) := by
  unfold decompress
  cases snappy data (maxSize + 1) with
  | ok output =>
    simp only
    split_ifs
    · exact contained_throw _
    · exact contained_ok _
  | invalidInput => exact contained_throw _
  | bufferTooSmall => exact contained_throw _
  | other => exact contained_throw _

/-- An offset that is checked is followed by none that is less; the last one is returned. -/
theorem checkOffsets_ok {lastOffset last : ℕ} {offsets : List ℕ}
    (h : checkOffsets lastOffset offsets = .ok last) :
    offsets.Pairwise (· ≤ ·) ∧ lastOffset ≤ last ∧
      ∀ offset ∈ offsets, lastOffset ≤ offset ∧ offset ≤ last := by
  induction offsets generalizing lastOffset with
  | nil =>
    cases h
    exact ⟨.nil, le_rfl, by simp⟩
  | cons offset offsets ih =>
    unfold checkOffsets at h
    split at h
    · cases h
    · obtain ⟨hpairwise, hle, hall⟩ := ih h
      refine ⟨List.pairwise_cons.mpr ⟨fun o ho => (hall o ho).1, hpairwise⟩, by omega, ?_⟩
      intro o ho
      rcases List.mem_cons.mp ho with rfl | ho
      · omega
      · have := hall o ho
        omega

theorem decompress_ok {data output : Bytes} {maxSize : ℕ}
    (h : decompress snappy data maxSize = .ok output) :
    snappy data (maxSize + 1) = .ok output ∧ output.length = maxSize := by
  unfold decompress at h
  cases hsnappy : snappy data (maxSize + 1) with
  | ok result =>
    rw [hsnappy] at h
    simp only at h
    split at h
    · cases h
    · rename_i hlength
      cases h
      exact ⟨rfl, by simpa using hlength⟩
  | invalidInput | bufferTooSmall | other =>
    rw [hsnappy] at h
    cases h

/-- A record of ascending offsets ends behind its begin, and inside of the data. -/
theorem recordEnd_inside {size offset : ℕ} {offsets : List ℕ}
    (hascending : (offset :: offsets).Pairwise (· ≤ ·))
    (hbelow : ∀ o ∈ offset :: offsets, o < size) :
    offset ≤ offsets.headD size ∧ offsets.headD size ≤ size := by
  cases offsets with
  | nil => simpa using (hbelow offset (by simp)).le
  | cons next offsets =>
    exact ⟨(List.pairwise_cons.mp hascending).1 next (by simp), (hbelow next (by simp)).le⟩

/-- Neither of the two subtractions of `packetSize` underflows. -/
theorem packetSize_ok {size offset : ℕ} {offsets : List ℕ} (h : offset ≤ offsets.headD size) :
    packetSize size offset offsets = .ok (offsets.headD size - offset) := by
  cases offsets with
  | nil => exact minus_ok h
  | cons next offsets => exact minus_ok h

theorem recordPayload_ok (record : Bytes) (hm : ℕ) (info : PacketInfo) :
    ∃ r, recordPayload record hm info = .ok r := by
  unfold recordPayload
  simp only [pure_ok]
  by_cases hlong : recordHeaderSize hm < record.length
  · have h34 : 34 ≤ recordHeaderSize hm := by
      unfold recordHeaderSize
      split_ifs <;> decide
    rw [if_pos hlong, readNat_ok (by omega), readNat_ok (by omega), readNat_ok (by omega),
      readNat_ok (by omega)]
    simp only [ok_bind]
    split_ifs with hsizes
    · rw [minus_ok (by omega)]
      simp only [ok_bind]
      split_ifs with hcap
      · rw [minus_ok (by omega), ok_bind, read_ok (by omega), ok_bind]
        obtain ⟨p, info', hsmart, -⟩ :=
          (Smart.payload_gives DLT_RAW).sound (slice record _ _) { info with ts := _ }
        rw [hsmart]
        exact ⟨_, rfl⟩
      · exact ⟨_, rfl⟩
    · exact ⟨_, rfl⟩
  · rw [if_neg hlong]
    exact ⟨_, rfl⟩

theorem recordPackets_ok (data : Bytes) (offset pktSize hm : ℕ) :
    ∃ ps, recordPackets data offset pktSize hm = .ok ps := by
  unfold recordPackets
  by_cases h : offset + pktSize ≤ data.length
  · obtain ⟨r, hr⟩ := recordPayload_ok (slice data offset pktSize) hm {}
    rw [if_pos h, read_ok h]
    simp only [ok_bind, pure_ok, hr]
    split_ifs
    · exact ⟨_, rfl⟩
    · exact ⟨_, rfl⟩
  · rw [if_neg h]
    exact ⟨_, rfl⟩

/-- The records between ascending offsets inside of the data. -/
theorem blockPackets_ok {data : Bytes} (hm : ℕ) {offsets : List ℕ}
    (hascending : offsets.Pairwise (· ≤ ·)) (hbelow : ∀ o ∈ offsets, o < data.length) :
    ∃ ps, blockPackets data hm offsets = .ok ps := by
  induction offsets with
  | nil => exact ⟨[], rfl⟩
  | cons offset offsets ih =>
    obtain ⟨others, hothers⟩ := ih hascending.of_cons fun o ho => hbelow o (by simp [ho])
    have hend := recordEnd_inside hascending hbelow
    obtain ⟨first, hfirst⟩ :=
      recordPackets_ok data offset (offsets.headD data.length - offset) hm
    unfold blockPackets
    rw [packetSize_ok hend.1, ok_bind, hothers, hfirst]
    exact ⟨_, rfl⟩

/-- Decoding a complete block stays inside its bytes. -/
theorem decodeBlock_contained {payload : Bytes} {h : BlockHeader}
    (htotal : h.total ≤ payload.length) : Contained (decodeBlock snappy payload h) := by
  have hsize : hdrSize + h.offsetsSize + h.dataSize ≤ payload.length := htotal
  have h64 := hdrSize_le_total h
  have htable : hdrSize + 4 * (0 + h.count) ≤ payload.length := by
    unfold BlockHeader.offsetsSize at hsize
    omega
  obtain ⟨offsets, hoffsets⟩ := readOffsets_ok payload 0 h.count htable
  unfold decodeBlock
  rw [hoffsets, ok_bind]
  apply (checkOffsets_contained 0 offsets).bind
  intro lastOffset hcheck
  obtain ⟨hascending, -, hlast⟩ := checkOffsets_ok hcheck
  by_cases hbad : lastOffset ≥ h.size
  · rw [if_pos hbad]
    exact contained_throw _
  · -- the offsets are below the size, which is the one of the data
    have hbelow : ∀ {data : Bytes}, h.size ≤ data.length → ∀ o ∈ offsets, o < data.length := by
      intro data hdata o ho
      have := hlast o ho
      omega
    rw [if_neg hbad, read_ok hsize, readNat_ok (by omega), ok_bind, ok_bind]
    split_ifs with hcompressed
    · apply (decompress_contained snappy _ h.size).bind
      intro tmpbuf htmpbuf
      exact .inl (blockPackets_ok _ hascending (hbelow (decompress_ok snappy htmpbuf).2.ge))
    · refine .inl (blockPackets_ok _ hascending (hbelow ?_))
      rw [length_slice hsize]
      omega

end Decoding

/-- One record: an IPv4 packet of 21 bytes that is neither TCP nor UDP. -/
def oneRecord : Bytes :=
  List.replicate 8 0 ++ le 4 21 ++ List.replicate 22 0 ++ [0x45] ++ List.replicate 19 0 ++ [7]

namespace Reassembler

/-- The effect of `parse` in the state `kREAD_HEADER`: it throws, it waits for
more of the block, or it decodes the block. -/
theorem parseHeader_cases (r : Reassembler) (payload : Bytes) (hlong : 32 ≤ payload.length) :
    (∃ what, parseHeader snappy r payload = .error (.exception what)) ∨
    ∃ h, BlockHeader.read payload = .ok h ∧
      ((payload.length < h.total ∧
          parseHeader snappy r payload = .ok (⟨r.buffer ++ payload, h.total, .readBody⟩, [])) ∨
        ∃ ps, h.total ≤ payload.length ∧ decodeBlock snappy payload h = .ok ps ∧
          parseHeader snappy r payload = .ok (r, ps)) := by
  unfold parseHeader
  rcases BlockHeader.read_contained hlong with ⟨h, hread⟩ | ⟨what, hread⟩
  · rw [hread]
    simp only [ok_bind, pure_ok]
    by_cases hmore : payload.length < h.total
    · rw [if_pos hmore]
      exact .inr ⟨h, rfl, .inl ⟨hmore, rfl⟩⟩
    · rw [if_neg hmore]
      have htotal : h.total ≤ payload.length := by omega
      rcases decodeBlock_contained snappy htotal with ⟨ps, hps⟩ | ⟨what, hwhat⟩
      · rw [hps]
        exact .inr ⟨h, rfl, .inr ⟨ps, htotal, hps, rfl⟩⟩
      · rw [hwhat]
        exact .inl ⟨what, rfl⟩
  · rw [hread]
    exact .inl ⟨what, rfl⟩

/-- `process` when `parse` ends as one of the cases of `parseHeader`. -/
theorem process_throw {r : Reassembler} {data : Bytes} {what : String}
    (h : parse snappy r data = .error (.exception what)) :
    process snappy r data = .ok (reset, []) := by
  unfold process
  rw [h]

theorem process_return {r r' : Reassembler} {data : Bytes} {ps : List Packet}
    (h : parse snappy r data = .ok (r', ps)) :
    process snappy r data = .ok (if ps ≠ [] then reset else r', ps) := by
  unfold process
  rw [h]

/-- The segment brings a block to its end. -/
def Completes (r : Reassembler) (segment : Bytes) : Prop :=
  r.state = .readBody ∧ r.dataSize ≤ (r.buffer ++ segment).length

/-- A complete block none of whose records yields a packet. -/
def Barren (block : Bytes) : Prop :=
  ∃ h, BlockHeader.read block = .ok h ∧ h.total ≤ block.length ∧
    decodeBlock snappy block h = .ok []

/-- The buffer holds what was received of one block, whose header says how much
there will be. -/
def Collecting (received : List Bytes) (r : Reassembler) : Prop :=
  r.state = .readBody ∧
    (∃ earlier block, received = earlier ++ block ∧ r.buffer = block.flatten) ∧
    (∃ h, BlockHeader.read r.buffer = .ok h ∧ r.dataSize = h.total) ∧
    r.buffer.length < r.dataSize

/-- The representation invariant. -/
def Inv (received : List Bytes) (r : Reassembler) : Prop :=
  Collecting received r ∨ r.buffer = []

/-- What a parse of a received segment needs of the state it starts in. -/
def Ready (received : List Bytes) (r : Reassembler) : Prop :=
  Collecting received r ∧ 64 ≤ r.buffer.length ∨ r.state ≠ .readBody ∧ r.buffer = []

theorem Ready.inv {received : List Bytes} {r : Reassembler} (h : Ready received r) :
    Inv received r := by
  rcases h with ⟨hcollecting, -⟩ | ⟨-, hempty⟩
  · exact .inl hcollecting
  · exact .inr hempty

theorem ready_reset (received : List Bytes) : Ready received reset := by
  right
  exact ⟨nofun, rfl⟩

/-- Outside of a body, a segment that is long enough is parsed as a header. -/
theorem parse_start {r : Reassembler} {segment : Bytes} (hstate : r.state ≠ .readBody)
    (hseg : 64 ≤ segment.length) :
    parse snappy r segment = parseHeader snappy { r with state := .readHeader } segment := by
  obtain ⟨buffer, dataSize, state⟩ := r
  unfold parse
  cases state with
  | waitHeader =>
    have hlong : ¬ segment.length < hdrSize := by
      unfold hdrSize
      omega
    exact if_neg hlong
  | readHeader => rfl
  | readBody => exact absurd rfl hstate

theorem parse_body {r : Reassembler} (segment : Bytes) (hstate : r.state = .readBody) :
    parse snappy r segment =
      if r.dataSize ≤ (r.buffer ++ segment).length then
        parseHeader snappy ⟨r.buffer ++ segment, r.dataSize, .readHeader⟩ (r.buffer ++ segment)
      else .ok (⟨r.buffer ++ segment, r.dataSize, .readBody⟩, []) := by
  obtain ⟨buffer, dataSize, state⟩ := r
  cases hstate
  rfl

theorem parseHeader_contained (r : Reassembler) {payload : Bytes} (hlong : 32 ≤ payload.length) :
    Contained (parseHeader snappy r payload) := by
  rcases parseHeader_cases snappy r payload hlong with
    ⟨what, h⟩ | ⟨h, -, ⟨-, hmore⟩ | ⟨ps, -, -, hdecoded⟩⟩
  · exact .inr ⟨what, h⟩
  · exact .inl ⟨_, hmore⟩
  · exact .inl ⟨_, hdecoded⟩

/-- Whatever the state, a segment that is long enough is parsed without an access
outside of it. -/
theorem process_ok (r : Reassembler) {segment : Bytes} (hseg : 64 ≤ segment.length) :
    ∃ r' out, process snappy r segment = .ok (r', out) := by
  have hparse : Contained (parse snappy r segment) := by
    by_cases hstate : r.state = .readBody
    · rw [parse_body snappy segment hstate]
      split_ifs
      · apply parseHeader_contained
        rw [List.length_append]
        omega
      · exact contained_ok _
    · rw [parse_start snappy hstate hseg]
      exact parseHeader_contained snappy _ (by omega)
  rcases hparse with ⟨⟨r', ps⟩, h⟩ | ⟨what, h⟩
  · exact ⟨_, _, process_return snappy h⟩
  · exact ⟨_, _, process_throw snappy h⟩

/-- A block that completes without a packet stays in the buffer. -/
theorem process_barren {r : Reassembler} {segment : Bytes} (hcompletes : Completes r segment)
    (hbarren : Barren snappy (r.buffer ++ segment)) :
    process snappy r segment = .ok (⟨r.buffer ++ segment, r.dataSize, .readHeader⟩, []) := by
  obtain ⟨hstate, hsize⟩ := hcompletes
  obtain ⟨h, hread, htotal, hdecode⟩ := hbarren
  have hparse : parse snappy r segment =
      .ok (⟨r.buffer ++ segment, r.dataSize, .readHeader⟩, []) := by
    rw [parse_body snappy segment hstate, if_pos hsize, parseHeader, hread]
    simp only [ok_bind, pure_ok]
    rw [if_neg (by omega), hdecode, ok_bind]
  rw [process_return snappy hparse, if_neg (by simp)]

/-- Inside a body, every other segment completes a block with packets, or extends the body. -/
theorem process_body_keeps {received : List Bytes} {r : Reassembler} {segment : Bytes}
    (hr : Collecting received r) (hlong : 64 ≤ r.buffer.length)
    (hfruitful : ¬ (Completes r segment ∧ Barren snappy (r.buffer ++ segment))) :
    ∃ r' out, process snappy r segment = .ok (r', out) ∧ Ready (received ++ [segment]) r' := by
  obtain ⟨hstate, ⟨earlier, block, rfl, hbuffer⟩, ⟨h, hread, htotal⟩, hshort⟩ := hr
  have hparse := parse_body snappy segment hstate
  have hgrown : 64 ≤ (r.buffer ++ segment).length := by
    rw [List.length_append]
    omega
  have hread' : BlockHeader.read (r.buffer ++ segment) = .ok h := by
    rw [BlockHeader.read_append segment (by omega), hread]
  by_cases hsize : r.dataSize ≤ (r.buffer ++ segment).length
  · rw [if_pos hsize] at hparse
    rcases parseHeader_cases snappy ⟨r.buffer ++ segment, r.dataSize, .readHeader⟩
      (r.buffer ++ segment) (by omega) with
      ⟨what, hthrow⟩ | ⟨h', hh', ⟨hmore, -⟩ | ⟨ps, htotal', hdecode, hdecoded⟩⟩
    · exact ⟨_, _, process_throw snappy (hparse.trans hthrow), ready_reset _⟩
    · -- the header has not changed, so the block is complete
      cases hread'.symm.trans hh'
      omega
    · refine ⟨_, _, process_return snappy (hparse.trans hdecoded), ?_⟩
      have hps : ps ≠ [] := by
        rintro rfl
        exact hfruitful ⟨⟨hstate, hsize⟩, h', hh', htotal', hdecode⟩
      rw [if_pos hps]
      exact ready_reset _
  · rw [if_neg hsize] at hparse
    refine ⟨_, _, process_return snappy hparse, ?_⟩
    rw [if_neg (by simp)]
    refine .inl ⟨⟨rfl, ⟨earlier, block ++ [segment], ?_, ?_⟩, ⟨h, hread', htotal⟩, ?_⟩, hgrown⟩
    · rw [List.append_assoc]
    · rw [hbuffer]
      simp
    · exact Nat.lt_of_not_le hsize

/-- Outside of a body, a segment is a block of its own or begins a body. -/
theorem process_start_keeps {r : Reassembler} {segment : Bytes} (received : List Bytes)
    (hstate : r.state ≠ .readBody) (hempty : r.buffer = []) (hseg : 64 ≤ segment.length) :
    ∃ r' out, process snappy r segment = .ok (r', out) ∧ Ready (received ++ [segment]) r' := by
  have hparse := parse_start snappy hstate hseg
  rcases parseHeader_cases snappy { r with state := .readHeader } segment
    (by omega) with ⟨what, hthrow⟩ | ⟨h, hread, ⟨hmore, hwait⟩ | ⟨ps, -, -, hdecoded⟩⟩
  · exact ⟨_, _, process_throw snappy (hparse.trans hthrow), ready_reset _⟩
  · refine ⟨_, _, process_return snappy (hparse.trans hwait), ?_⟩
    rw [if_neg (by simp)]
    simp only [hempty, List.nil_append]
    exact .inl ⟨⟨rfl, ⟨received, [segment], rfl, by simp⟩, ⟨h, hread, rfl⟩, hmore⟩, hseg⟩
  · refine ⟨_, _, process_return snappy (hparse.trans hdecoded), ?_⟩
    by_cases hps : ps = []
    · rw [if_neg (not_not_intro hps)]
      exact .inr ⟨nofun, hempty⟩
    · rw [if_pos hps]
      exact ready_reset _

/-- Every other segment keeps the reassembler ready. -/
theorem process_keeps {received : List Bytes} {r : Reassembler} {segment : Bytes}
    (hr : Ready received r) (hseg : 64 ≤ segment.length)
    (hfruitful : ¬ (Completes r segment ∧ Barren snappy (r.buffer ++ segment))) :
    ∃ r' out, process snappy r segment = .ok (r', out) ∧ Ready (received ++ [segment]) r' := by
  rcases hr with ⟨hcollecting, hlong⟩ | ⟨hstate, hempty⟩
  · exact process_body_keeps snappy hcollecting hlong hfruitful
  · exact process_start_keeps snappy received hstate hempty hseg

theorem run_ready {segments : List Bytes} (hseg : ∀ segment ∈ segments, 64 ≤ segment.length)
    (hfruitful : ∀ received segment, received ++ [segment] <+: segments → ∀ r out,
      (machine snappy).run fresh received = .ok (r, out) →
        ¬ (Completes r segment ∧ Barren snappy (r.buffer ++ segment)))
    {received : List Bytes} (hreceived : received <+: segments) {r : Reassembler}
    {out : List Packet} (hrun : (machine snappy).run fresh received = .ok (r, out)) :
    Ready received r := by
  apply (machine snappy).run_keeps (fun received _ r => Ready received r)
    (fun _ r segment => 64 ≤ segment.length ∧
      ¬ (Completes r segment ∧ Barren snappy (r.buffer ++ segment)))
    _ _ _ hreceived hrun
  · rintro received _ r segment r' out hready ⟨hlong, hfruitful⟩ hstep
    obtain ⟨r₂, o₂, hprocess, hkeeps⟩ := process_keeps snappy hready hlong hfruitful
    cases hprocess.symm.trans hstep
    exact hkeeps
  · exact .inr ⟨nofun, rfl⟩
  · intro received segment hinitial r out hrun
    exact ⟨hseg segment (hinitial.subset (by simp)), hfruitful received segment hinitial r out hrun⟩

/-- Every segment of at least 64 bytes is processed without an access out of
bounds. The representation invariant holds after every call exactly when no
segment of the run completes a buffered block that yields no packet. -/
theorem inv_iff_fruitful (segments : List Bytes)
    (hseg : ∀ segment ∈ segments, 64 ≤ segment.length) :
    (∃ r out, (machine snappy).run fresh segments = .ok (r, out)) ∧
    ((∀ received, received <+: segments → ∀ r out,
        (machine snappy).run fresh received = .ok (r, out) → Inv received r) ↔
      ∀ received segment, received ++ [segment] <+: segments → ∀ r out,
        (machine snappy).run fresh received = .ok (r, out) →
          ¬ (Completes r segment ∧ Barren snappy (r.buffer ++ segment))) := by
  constructor
  · obtain ⟨r, out, hrun, -⟩ := (machine snappy).run_total (fun _ => True)
      (fun segment => 64 ≤ segment.length)
      (fun r segment _ hlong => by
        obtain ⟨r', out, h⟩ := process_ok snappy r hlong
        exact ⟨r', out, h, trivial⟩)
      segments trivial hseg
    exact ⟨r, out, hrun⟩
  · constructor
    · rintro hinv received segment hinitial r out hrun ⟨hcompletes, hbarren⟩
      have hstep := process_barren snappy hcompletes hbarren
      have hlong : 64 ≤ segment.length := hseg segment (hinitial.subset (by simp))
      have hnext := (machine snappy).run_snoc hrun hstep
      rcases hinv _ hinitial _ _ hnext with ⟨hstate, -⟩ | hempty
      · cases hstate
      · simp only [List.append_eq_nil_iff] at hempty
        simp [hempty.2] at hlong
    · intro hfruitful received hreceived r out hrun
      exact (run_ready snappy hseg hfruitful hreceived hrun).inv

/-- A block of three records with a packet each, in three segments. -/
theorem inv_iff_fruitful_three_segments :
    let block := blockBytes [0, 55, 110] (oneRecord ++ oneRecord ++ oneRecord)
    let segments := [block.take 80, (block.drop 80).take 80, block.drop 160]
    (∃ r out, (machine fun _ _ => .other).run fresh segments = .ok (r, out)) ∧
    ∀ received, received <+: segments → ∀ r out,
      (machine fun _ _ => .other).run fresh received = .ok (r, out) → Inv received r := by
  intro block segments
  have hlength : block.length = 241 := rfl
  have h := inv_iff_fruitful (fun _ _ => .other) segments (by simp [segments, hlength])
  refine ⟨h.1, h.2.mpr ?_⟩
  rintro received segment hinitial r out hrun ⟨⟨hstate, hsize⟩, header, hread, -, hbarren⟩
  have hone : (machine fun _ _ => .other).run fresh [block.take 80] =
      .ok (⟨block.take 80, 241, .readBody⟩, []) := by decide +kernel
  have htwo : (machine fun _ _ => .other).run fresh [block.take 80, (block.drop 80).take 80] =
      .ok (⟨block.take 160, 241, .readBody⟩, []) := by decide +kernel
  match received, hinitial with
  | [], _ =>
    cases hrun
    cases hstate
  | [first], hinitial =>
    obtain ⟨rfl, rfl⟩ : first = block.take 80 ∧ segment = (block.drop 80).take 80 := by
      simpa [segments] using hinitial
    cases hone.symm.trans hrun
    simp [hlength] at hsize
  | [first, second], hinitial =>
    obtain ⟨rfl, rfl, rfl⟩ : first = block.take 80 ∧ second = (block.drop 80).take 80 ∧
        segment = block.drop 160 := by
      simpa [segments] using hinitial
    cases htwo.symm.trans hrun
    -- the whole block, which yields packets
    have hblock : block.take 160 ++ block.drop 160 = block := List.take_append_drop 160 block
    rw [hblock] at hread hbarren
    have hheader : BlockHeader.read block = .ok ⟨3, 165, 0⟩ := by decide +kernel
    cases hheader.symm.trans hread
    have hpackets : decodeBlock (fun _ _ => .other) block ⟨3, 165, 0⟩ ≠ .ok [] := by decide +kernel
    exact hpackets hbarren
  | first :: second :: third :: more, hinitial =>
    have hcount := hinitial.length_le
    simp only [segments, List.length_append, List.length_cons, List.length_nil] at hcount
    omega

/-- A block of one record without a packet, in two segments of 64 bytes: all of it
stays in the buffer. -/
theorem barren_block_stays :
    ∃ r out, (machine fun _ _ => .other).run fresh
        [(blockBytes [0] (List.replicate 60 0)).take 64,
          (blockBytes [0] (List.replicate 60 0)).drop 64] = .ok (r, out) ∧
      r.state = .readHeader ∧ r.buffer.length = 128 ∧
      ¬ Inv [(blockBytes [0] (List.replicate 60 0)).take 64,
        (blockBytes [0] (List.replicate 60 0)).drop 64] r := by
  refine ⟨⟨blockBytes [0] (List.replicate 60 0), 128, .readHeader⟩, [], rfl, rfl, rfl, ?_⟩
  rintro (⟨hstate, -⟩ | hempty)
  · cases hstate
  · cases hempty

end Reassembler

/-- A valid block that yields packets: its header accounts for all of its bytes,
and decoding it whole gives the packets. -/
structure Block where
  bytes : Bytes
  header : BlockHeader
  packets : List Packet
  header_eq : BlockHeader.read bytes = .ok header
  length_eq : bytes.length = header.total
  decode_eq : decodeBlock snappy bytes header = .ok packets
  packets_ne : packets ≠ []

/-- A cut of some bytes into segments, of which the first has at least `n` bytes. -/
structure IsCut (n : ℕ) (bytes : Bytes) (segments : List Bytes) : Prop where
  join : segments.flatten = bytes
  nonempty : ∀ segment ∈ segments, segment ≠ []
  first : ∀ segment, segments.head? = some segment → n ≤ segment.length

/-- The block of that record, whose packet is the last byte. -/
def oneRecordBlock : Block fun _ _ => .other where
  bytes := blockBytes [0] oneRecord
  header := ⟨1, 55, 0⟩
  packets := [⟨[7], { ip := 4, srcAddr := "0.0.0.0", dstAddr := "0.0.0.0" }⟩]
  header_eq := by decide +kernel
  length_eq := by rfl
  decode_eq := by decide +kernel
  packets_ne := by simp

variable {snappy} in
theorem Block.length_ge (b : Block snappy) : 64 ≤ b.bytes.length := by
  rw [b.length_eq]
  exact hdrSize_le_total b.header

namespace Reassembler

variable {snappy} (b : Block snappy)

/-- The whole block is parsed as its packets. -/
theorem parseHeader_block (r : Reassembler) :
    parseHeader snappy r b.bytes = .ok (r, b.packets) := by
  unfold parseHeader
  rw [b.header_eq]
  simp only [ok_bind, pure_ok]
  rw [if_neg (by rw [b.length_eq]; omega), b.decode_eq, ok_bind]

/-- The first part of a block makes the reassembler wait for the rest. -/
theorem parseHeader_part (r : Reassembler) {first rest : Bytes} (hjoin : first ++ rest = b.bytes)
    (hfirst : 32 ≤ first.length) (hrest : rest ≠ []) :
    parseHeader snappy r first = .ok (⟨r.buffer ++ first, b.header.total, .readBody⟩, []) := by
  have hread : BlockHeader.read first = .ok b.header := by
    rw [← BlockHeader.read_append rest hfirst, hjoin, b.header_eq]
  have hmore : b.header.total > first.length := by
    have hpos := List.length_pos_of_ne_nil hrest
    rw [← b.length_eq, ← hjoin, List.length_append]
    omega
  unfold parseHeader
  rw [hread]
  simp only [ok_bind, pure_ok]
  rw [if_pos hmore]

/-- The segments of a body. The induction is on the segments; the buffer and what
is still to come make up the block. -/
theorem run_body (segments : List Bytes) (hnonempty : ∀ segment ∈ segments, segment ≠ [])
    (hsegments : segments ≠ []) {buffer : Bytes} (hjoin : buffer ++ segments.flatten = b.bytes) :
    (machine snappy).run ⟨buffer, b.header.total, .readBody⟩ segments =
      .ok (reset, b.packets) := by
  induction segments generalizing buffer with
  | nil => exact absurd rfl hsegments
  | cons segment segments ih =>
    rw [List.flatten_cons, ← List.append_assoc] at hjoin
    have hparse := parse_body snappy (r := ⟨buffer, b.header.total, .readBody⟩) segment rfl
    by_cases hlast : segments = []
    · subst hlast
      rw [List.flatten_nil, List.append_nil] at hjoin
      simp only [hjoin, b.length_eq, le_refl, if_true] at hparse
      rw [parseHeader_block] at hparse
      apply (machine snappy).run_singleton_ok_iff.mpr
      have hprocess := process_return snappy hparse
      rwa [if_pos b.packets_ne] at hprocess
    · have hmore : ¬ b.header.total ≤ (buffer ++ segment).length := by
        have hpos : 0 < segments.flatten.length := by
          obtain ⟨next, others, rfl⟩ := List.exists_cons_of_ne_nil hlast
          have := List.length_pos_of_ne_nil (hnonempty next (by simp))
          simp only [List.flatten_cons, List.length_append]
          omega
        have htotal := congrArg List.length hjoin
        rw [b.length_eq, List.length_append] at htotal
        omega
      rw [if_neg hmore] at hparse
      have hprocess := process_return snappy hparse
      have hrest := ih (fun s hs => hnonempty s (by simp [hs])) hlast hjoin
      exact (machine snappy).run_cons hprocess hrest

/-- A reassembler without a part of a block, and how much of the next block it
has to get at once. -/
def Idle (n : ℕ) (r : Reassembler) : Prop :=
  r = fresh ∧ 64 ≤ n ∨ r = reset ∧ 32 ≤ n

theorem parse_idle {n : ℕ} {r : Reassembler} (hr : Idle n r) {segment : Bytes}
    (hseg : n ≤ segment.length) : parse snappy r segment = parseHeader snappy reset segment := by
  rcases hr with ⟨rfl, hn⟩ | ⟨rfl, -⟩
  · exact parse_start snappy nofun (hn.trans hseg)
  · rfl

theorem Idle.least {n : ℕ} {r : Reassembler} (hr : Idle n r) : 32 ≤ n := by
  rcases hr with ⟨-, hn⟩ | ⟨-, hn⟩
  · omega
  · exact hn

/-- The segments of one block deliver its packets. -/
theorem run_block {n : ℕ} {r : Reassembler} (hr : Idle n r) {segments : List Bytes}
    (hcut : IsCut n b.bytes segments) :
    (machine snappy).run r segments = .ok (reset, b.packets) := by
  cases segments with
  | nil =>
    have hlong := b.length_ge
    simp [← hcut.join] at hlong
  | cons first segments =>
    have hfirst := hcut.first first rfl
    have hleast := hr.least
    have hparse : parse snappy r first = parseHeader snappy reset first := parse_idle hr hfirst
    have hjoin : first ++ segments.flatten = b.bytes := by
      rw [← List.flatten_cons, hcut.join]
    by_cases hlast : segments = []
    · subst hlast
      rw [List.flatten_nil, List.append_nil] at hjoin
      rw [hjoin, parseHeader_block] at hparse
      rw [hjoin, Machine.run_singleton_ok_iff]
      have hprocess := process_return snappy hparse
      rwa [if_pos b.packets_ne] at hprocess
    · have hnonempty : ∀ segment ∈ segments, segment ≠ [] :=
        fun segment h => hcut.nonempty segment (by simp [h])
      have hrest : segments.flatten ≠ [] := by
        obtain ⟨next, others, rfl⟩ := List.exists_cons_of_ne_nil hlast
        have hnext := hnonempty next (by simp)
        simp [hnext]
      rw [parseHeader_part b reset hjoin (by omega) hrest] at hparse
      have hprocess := process_return snappy hparse
      exact (machine snappy).run_cons hprocess (run_body b segments hnonempty hlast hjoin)

/-- The segments of a list of blocks deliver the packets of all of them. -/
theorem run_blocks {blocks : List (Block snappy)} {cuts : List (List Bytes)}
    (hcuts : List.Forall₂ (fun b => IsCut 32 b.bytes) blocks cuts) :
    (machine snappy).run reset cuts.flatten = .ok (reset, blocks.flatMap Block.packets) := by
  induction hcuts with
  | nil => rfl
  | cons hcut _ ih =>
    exact (machine snappy).run_append (run_block _ (.inr ⟨rfl, le_rfl⟩) hcut) ih

/-- The same from any idle reassembler, whose first segment may have to be longer. -/
theorem run_stream {n : ℕ} {r : Reassembler} (hr : Idle n r) {blocks : List (Block snappy)}
    {cuts : List (List Bytes)} (hcuts : List.Forall₂ (fun b => IsCut 32 b.bytes) blocks cuts)
    (hfirst : ∀ segment, cuts.flatten.head? = some segment → n ≤ segment.length) :
    ∃ r', (machine snappy).run r cuts.flatten = .ok (r', blocks.flatMap Block.packets) := by
  cases hcuts with
  | nil => exact ⟨r, rfl⟩
  | @cons b cut blocks cuts hcut hcuts =>
    have hcut' : IsCut n b.bytes cut := by
      refine ⟨hcut.join, hcut.nonempty, ?_⟩
      intro segment hsegment
      apply hfirst
      rw [List.flatten_cons, List.head?_append, hsegment]
      rfl
    exact ⟨reset, (machine snappy).run_append (run_block b hr hcut') (run_blocks hcuts)⟩

/-- Cuts in which the first segment of every block holds a whole header. -/
theorem run_fresh_cuts {blocks : List (Block snappy)} {cuts : List (List Bytes)}
    (hcuts : List.Forall₂ (fun b => IsCut 64 b.bytes) blocks cuts) :
    ∃ r, (machine snappy).run fresh cuts.flatten = .ok (r, blocks.flatMap Block.packets) := by
  apply run_stream (.inl ⟨rfl, le_rfl⟩)
  · apply hcuts.imp
    intro b cut hcut
    exact ⟨hcut.join, hcut.nonempty, fun segment h => le_trans (by decide) (hcut.first segment h)⟩
  · intro segment hsegment
    cases hcuts with
    | nil => cases hsegment
    | @cons b cut blocks cuts hcut hcuts =>
      cases cut with
      | nil =>
        have hlong := b.length_ge
        simp [← hcut.join] at hlong
      | cons first rest =>
        exact hcut.first segment hsegment

end Reassembler

/-- The packets of all blocks are delivered in order for every cut of the stream
in which no segment spans two blocks, the first segment of every block holds the
header fields that are read, and the very first segment holds a whole header. -/
theorem delivers_blocks (blocks : List (Block snappy)) (cuts : List (List Bytes))
    (hcuts : List.Forall₂ (fun b => IsCut 32 b.bytes) blocks cuts)
    (hfirst : ∀ segment, cuts.flatten.head? = some segment → 64 ≤ segment.length) :
    ∃ r, (Reassembler.machine snappy).run Reassembler.fresh cuts.flatten =
      .ok (r, blocks.flatMap Block.packets) :=
  Reassembler.run_stream (.inl ⟨rfl, le_rfl⟩) hcuts hfirst

/-- Two blocks, of which the second comes with a short first segment. -/
theorem delivers_blocks_two :
    ∃ r, (Reassembler.machine fun _ _ => .other).run Reassembler.fresh
        [oneRecordBlock.bytes.take 64, oneRecordBlock.bytes.drop 64,
          oneRecordBlock.bytes.take 32, oneRecordBlock.bytes.drop 32] =
      .ok (r, oneRecordBlock.packets ++ oneRecordBlock.packets) := by
  have hcut : ∀ n, 32 ≤ n → n < 123 →
      IsCut 32 oneRecordBlock.bytes [oneRecordBlock.bytes.take n, oneRecordBlock.bytes.drop n] := by
    intro n hn hlt
    have hlength : oneRecordBlock.bytes.length = 123 := rfl
    refine ⟨by simp, ?_, ?_⟩
    · intro segment hsegment
      apply List.ne_nil_of_length_pos
      simp only [List.mem_cons, List.not_mem_nil, or_false] at hsegment
      rcases hsegment with rfl | rfl
      · rw [List.length_take]
        omega
      · rw [List.length_drop]
        omega
    · intro segment hsegment
      cases hsegment
      rw [List.length_take]
      omega
  exact delivers_blocks (fun _ _ => .other) [oneRecordBlock, oneRecordBlock]
    [[oneRecordBlock.bytes.take 64, oneRecordBlock.bytes.drop 64],
      [oneRecordBlock.bytes.take 32, oneRecordBlock.bytes.drop 32]]
    (.cons (hcut 64 (by decide) (by decide)) (.cons (hcut 32 (by decide) (by decide)) .nil))
    (by
      intro segment hsegment
      cases hsegment
      decide +kernel)

/-- Cuts that lose packets: two blocks in one segment deliver the packets of one,
a block that starts with less than a header is skipped, and where a header is
expected already, less than its fields is read out of bounds. -/
theorem cut_loses_packets :
    (Reassembler.machine fun _ _ => .other).run Reassembler.fresh
        [oneRecordBlock.bytes ++ oneRecordBlock.bytes] =
      .ok (Reassembler.reset, oneRecordBlock.packets) ∧
    oneRecordBlock.packets ≠ [oneRecordBlock, oneRecordBlock].flatMap Block.packets ∧
    (Reassembler.machine fun _ _ => .other).run Reassembler.fresh
        [oneRecordBlock.bytes.take 63, oneRecordBlock.bytes.drop 63] =
      .ok (Reassembler.fresh, []) ∧
    (Reassembler.machine fun _ _ => .other).run Reassembler.fresh
        [oneRecordBlock.bytes, oneRecordBlock.bytes.take 31, oneRecordBlock.bytes.drop 31] =
      .error .outOfBounds := by
  decide +kernel

end NetComponents.Pcap
