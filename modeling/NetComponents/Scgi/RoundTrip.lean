import NetComponents.Scgi.Reference

/-!
# Decoding what was encoded

The encoder and the parser are separate code. A frame written by `message`
makes the reference decoder take exactly that frame, whatever follows, so a
stream of frames is taken apart frame by frame and a dropped frame does not
disturb the ones behind it.
-/

namespace NetComponents.Scgi

open Library

/-- The payload sizes the decoder lets through. -/
def Deliverable (payload : Bytes) : Prop :=
  1 ≤ payload.length ∧ payload.length ≤ 1024 * 1024

instance : DecidablePred Deliverable := fun _ => inferInstanceAs (Decidable (_ ∧ _))

variable {δ : Type} (d : Dispatcher δ)

/-- A dispatcher that accepts everything. -/
def Dispatcher.Accepts : Prop := ∀ t payload, (d.onMessage t payload).1 = .returned true

/-- The header written for a payload of less than 4 GiB carries its exact size. -/
theorem Header.ofSize_toNat {n : ℕ} (h : n < 2 ^ 32) : (Header.ofSize n).size.toNat = n := by
  rw [Header.ofSize, UInt32.toNat_ofNat_of_lt' h]

theorem reference_message (haccept : d.Accepts) (t : δ) {payload : Bytes}
    (hsize : payload.length < 2 ^ 32) (port : ℕ) (rest : Bytes) :
    reference d t ((message payload port).bytes ++ rest) =
      if Deliverable payload then
        (reference d (d.onMessage t payload).2 rest).cons payload
      else reference d t rest := by
  have hlen := Header.ofSize_toNat hsize
  have hvalid : (Header.ofSize payload.length).valid = true := by
    simp [Header.valid, Header.ofSize]
  have hzero : (Header.ofSize payload.length).size = 0 ↔ payload.length = 0 := by
    rw [← Header.toNat_size_eq_zero_iff, hlen]
  have hover : (Header.ofSize payload.length).overflow = true ↔ 1024 * 1024 < payload.length := by
    rw [Header.overflow_iff, hlen]
  rw [message_bytes, List.append_assoc]
  by_cases hempty : payload = []
  · -- a header alone: looked at as soon as something follows
    subst hempty
    rw [if_neg (by simp [Deliverable]), List.nil_append]
    by_cases hrest : rest = []
    · rw [reference_short d t (by simp [hrest]), reference_short d t (by simp [hrest])]
    · rw [reference_header d t _ hrest, hvalid, if_neg (by simp), if_pos (hzero.mpr rfl)]
  · have hpos : 0 < payload.length := List.length_pos_of_ne_nil hempty
    have hne : payload ++ rest ≠ [] := by simp [hempty]
    rw [reference_header d t _ hne, hvalid, if_neg (by simp), if_neg (by rw [hzero]; omega), hlen]
    by_cases hbig : 1024 * 1024 < payload.length
    · rw [if_pos (hover.mpr hbig), if_neg (by unfold Deliverable; omega), List.drop_left]
    · rw [if_neg (by rwa [hover]), if_pos ⟨hpos, by omega⟩,
        body_complete d t [] payload rest le_rfl]
      simp [deliver, haccept t payload]

theorem reference_messages (haccept : d.Accepts) (port : ℕ) (payloads : List Bytes) (t : δ)
    (hsize : ∀ x ∈ payloads, x.length < 2 ^ 32) :
    reference d t (payloads.flatMap fun x => (message x port).bytes) =
      ⟨payloads.filter Deliverable, false⟩ := by
  induction payloads generalizing t with
  | nil => exact reference_short d t (by simp)
  | cons x xs ih =>
    rw [List.flatMap_cons, reference_message d haccept t (hsize x (by simp)) port]
    have hrest : ∀ t, reference d t (xs.flatMap fun x => (message x port).bytes) =
        ⟨xs.filter Deliverable, false⟩ := fun t => ih t fun y hy => hsize y (by simp [hy])
    by_cases hx : Deliverable x
    · rw [if_pos hx, hrest, List.filter_cons_of_pos (by simpa using hx)]
      rfl
    · rw [if_neg hx, hrest, List.filter_cons_of_neg (by simpa using hx)]

/-- Decoding undoes encoding, for any chunks the frames arrive in. -/
theorem decode_encode (haccept : d.Accepts) (t : δ) (payloads : List Bytes) (port : ℕ)
    (hsize : ∀ x ∈ payloads, x.length < 2 ^ 32) (chunks : List Chunk)
    (hchunks : chunks.flatMap Chunk.bytes = payloads.flatMap fun x => (message x port).bytes) :
    ∃ p t', (Parser.machine d).run (Parser.fresh, t) chunks =
        .ok ((p, t'), (payloads.filter Deliverable).map .onMessage) ∧
      p.failed = false := by
  obtain ⟨p, t', hrun, hfailed⟩ := Parser.run_fresh d t chunks
  rw [hchunks, reference_messages d haccept port payloads t hsize] at hrun hfailed
  refine ⟨p, t', ?_, hfailed⟩
  rw [hrun]
  simp [Outcome.events]

/-- An empty frame and a two-byte frame, cut inside the second header. -/
theorem decode_encode_two_frames :
    ∃ p t', (Parser.machine ⟨fun n _ => (.returned true, n + 1)⟩).run (Parser.fresh, 0)
        [Chunk.full (0xFB :: List.replicate 7 0), Chunk.full [0xFB, 0, 0],
          Chunk.full [0, 2, 0, 0, 0, 7], Chunk.full [8]] =
        .ok ((p, t'), [.onMessage [7, 8]]) ∧
      p.failed = false :=
  decode_encode ⟨fun n _ => (.returned true, n + 1)⟩ (fun _ _ => rfl) 0 [[], [7, 8]] 0
    (by decide) _ (by decide)

end NetComponents.Scgi
