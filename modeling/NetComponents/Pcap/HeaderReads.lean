import NetComponents.Pcap.BlockStream

/-!
# Short segments as block headers

Only the state `kWAIT_HEADER` checks that a segment is as long as a header. `reset` leads to
`kREAD_HEADER`, and so does a block that completes without a packet; the next segment is read as a
header there, however short it is.
-/

namespace NetComponents.Pcap

open Library

variable (snappy : Snappy)

/-- The segment has room for what `parse` reads of a header: the title, and behind a title that is
right the fields up to `count`. -/
def HeaderInside (segment : Bytes) : Prop :=
  16 ≤ segment.length ∧ (segment.take 16 = headerString → 32 ≤ segment.length)

instance (segment : Bytes) : Decidable (HeaderInside segment) := by
  unfold HeaderInside
  infer_instance

theorem BlockHeader.read_contained_of_inside {segment : Bytes} (h : HeaderInside segment) :
    Contained (BlockHeader.read segment) := by
  by_cases htitle : segment.take 16 = headerString
  · exact BlockHeader.read_contained (h.2 htitle)
  · unfold BlockHeader.read
    rw [read_ok (by have := h.1; omega), ok_bind, if_pos (by simpa [slice] using htitle)]
    exact contained_throw _

theorem BlockHeader.read_of_not_inside {segment : Bytes} (h : ¬HeaderInside segment) :
    BlockHeader.read segment = .error .outOfBounds := by
  unfold BlockHeader.read
  by_cases htitle : 16 ≤ segment.length
  · obtain ⟨heq, hshort⟩ : segment.take 16 = headerString ∧ segment.length < 32 := by
      simpa [HeaderInside, htitle] using h
    have hcount : readNat segment 28 4 = .error .outOfBounds := by
      rw [readNat, Library.read, if_neg (by omega)]
      rfl
    rw [read_ok (by omega), ok_bind, if_neg (by simpa [slice] using heq), hcount]
    rfl
  · rw [Library.read, if_neg (by omega)]
    rfl

namespace Reassembler

/-- A body that is collected has at least the length of a header in the end. -/
def BodyLong (r : Reassembler) : Prop := r.state = .readBody → hdrSize ≤ r.dataSize

theorem parseHeader_bodyLong {r r' : Reassembler} {payload : Bytes} {ps : List Packet}
    (hr : r.state ≠ .readBody) (h : parseHeader snappy r payload = .ok (r', ps)) :
    r'.BodyLong := by
  unfold parseHeader at h
  cases hread : BlockHeader.read payload with
  | error e =>
    rw [hread] at h
    cases h
  | ok hdr =>
    rw [hread, ok_bind] at h
    split at h
    · cases h
      intro _
      exact hdrSize_le_total hdr
    · cases hdecode : decodeBlock snappy payload hdr with
      | error e =>
        rw [hdecode] at h
        cases h
      | ok packets =>
        rw [hdecode] at h
        cases h
        exact fun hstate => absurd hstate hr

theorem parse_bodyLong {r r' : Reassembler} {segment : Bytes} {ps : List Packet}
    (hr : r.BodyLong) (h : parse snappy r segment = .ok (r', ps)) : r'.BodyLong := by
  unfold parse at h
  cases hstate : r.state with
  | waitHeader =>
    simp only [hstate] at h
    split at h
    · cases h
      exact hr
    · exact parseHeader_bodyLong snappy (by simp) h
  | readHeader =>
    simp only [hstate] at h
    exact parseHeader_bodyLong snappy (by simp [hstate]) h
  | readBody =>
    simp only [hstate] at h
    split at h
    · exact parseHeader_bodyLong snappy (by simp) h
    · cases h
      exact fun _ => hr hstate

theorem process_bodyLong {r r' : Reassembler} {segment : Bytes} {ps : List Packet}
    (hr : r.BodyLong) (h : process snappy r segment = .ok (r', ps)) : r'.BodyLong := by
  unfold process at h
  cases hparse : parse snappy r segment with
  | ok result =>
    rw [hparse] at h
    cases h
    split
    · exact nofun
    · exact parse_bodyLong snappy hr hparse
  | error e =>
    rw [hparse] at h
    cases e with
    | exception what =>
      cases h
      exact nofun
    | _ => cases h

theorem parseHeader_inside (r : Reassembler) {payload : Bytes} (h : HeaderInside payload) :
    Contained (parseHeader snappy r payload) := by
  unfold parseHeader
  apply (BlockHeader.read_contained_of_inside h).bind
  intro hdr _
  split
  · exact contained_ok _
  · apply (decodeBlock_contained snappy (by omega)).bind
    intro packets _
    exact contained_ok _

theorem parseHeader_outside (r : Reassembler) {payload : Bytes} (h : ¬HeaderInside payload) :
    parseHeader snappy r payload = .error .outOfBounds := by
  unfold parseHeader
  rw [BlockHeader.read_of_not_inside h]
  rfl

theorem headerInside_of_long {segment : Bytes} (h : 32 ≤ segment.length) : HeaderInside segment :=
  ⟨by omega, fun _ => h⟩

/-- Only in the state `kREAD_HEADER` a segment may be too short for what is read of it. -/
theorem parse_contained {r : Reassembler} {segment : Bytes} (hr : r.BodyLong)
    (h : r.state = .readHeader → HeaderInside segment) : Contained (parse snappy r segment) := by
  have hsize : hdrSize = 64 := rfl
  unfold parse
  cases hstate : r.state with
  | waitHeader =>
    simp only
    split
    · exact contained_ok _
    · exact parseHeader_inside snappy _ (headerInside_of_long (by omega))
  | readHeader => exact parseHeader_inside snappy _ (h hstate)
  | readBody =>
    have hlong := hr hstate
    simp only
    split
    · exact parseHeader_inside snappy _ (headerInside_of_long (by omega))
    · exact contained_ok _

theorem process_error_iff {r : Reassembler} {segment : Bytes} (hr : r.BodyLong) :
    process snappy r segment = .error .outOfBounds ↔
      r.state = .readHeader ∧ ¬HeaderInside segment := by
  constructor
  · intro h
    by_contra hinside
    have hcontained : Contained (parse snappy r segment) :=
      parse_contained snappy hr (by tauto)
    rcases hcontained with ⟨⟨r', ps⟩, hparse⟩ | ⟨what, hparse⟩
    · cases (process_return snappy hparse).symm.trans h
    · cases (process_throw snappy hparse).symm.trans h
  · rintro ⟨hstate, hshort⟩
    unfold process parse
    rw [hstate]
    simp only
    rw [parseHeader_outside snappy r hshort]

/-- Every access of a run stays inside the segment or the buffer that is parsed, if and only if
each segment that arrives in the state `kREAD_HEADER` has room for what is read of a header. -/
theorem reads_inside_iff (segments : List Bytes) :
    (machine snappy).run fresh segments ≠ .error .outOfBounds ↔
      ∀ earlier segment, earlier ++ [segment] <+: segments → ∀ r out,
        (machine snappy).run fresh earlier = .ok (r, out) → r.state = .readHeader →
          HeaderInside segment := by
  have hlong : ∀ earlier r out, (machine snappy).run fresh earlier = .ok (r, out) →
      r.BodyLong := by
    intro earlier r out hrun
    exact (machine snappy).run_invariant (fun _ _ r => r.BodyLong)
      (fun _ _ _ _ _ _ hr hstep => process_bodyLong snappy hr hstep) (by simp [BodyLong, fresh])
      hrun
  rw [Ne, Machine.run_error_iff]
  constructor
  · intro hinside earlier segment hprefix r out hrun hstate
    by_contra hshort
    exact hinside ⟨earlier, segment, hprefix, r, out, hrun,
      (process_error_iff snappy (hlong _ _ _ hrun)).mpr ⟨hstate, hshort⟩⟩
  · rintro hall ⟨earlier, segment, hprefix, r, out, hrun, hstep⟩
    obtain ⟨hstate, hshort⟩ := (process_error_iff snappy (hlong _ _ _ hrun)).mp hstep
    exact hshort (hall _ _ hprefix _ _ hrun hstate)

/-- A segment that is no block brings the state `kREAD_HEADER`; the next one has one byte. -/
theorem short_segment_outside :
    ¬∀ segments, (machine fun _ _ => .other).run fresh segments ≠ .error .outOfBounds := by
  intro hall
  exact hall [List.replicate 64 0, [0]] (by decide +kernel)

end Reassembler

end NetComponents.Pcap
